import LpMaker.Hyperliquid.Exposure
import LpMaker.Hyperliquid.OrderEvidence

/-!
# Rules of the hedge market

What each operation of the hedge does. While no order works the position is known, and only a new
order moves it.
-/

namespace LpMaker.Hyperliquid

open Semantics

variable {F : Type} [F64 F]

namespace Market

section Idle

variable {text : Decimal.Text} {Inv : Market F → Prop} {w : Market F}

/-- No operation but a new order meets a drift while nothing works. -/
theorem step_of_idle (idle : w.working = []) (op : HedgeOp F) (input : MarketInput F) :
    (machine text).step op input w = act text op input w := by
  change act text op input (w.drift input) = act text op input w
  rw [drift_of_idle idle]

omit [F64 F] in
theorem reply_eq_ok {α : Type} {input : MarketInput F} {value : Except Failure α} {result : α}
    (replied : reply input value = .ok result) : value = .ok result := by
  unfold reply at replied
  rw [bind_eq_ok] at replied
  obtain ⟨_, -, same⟩ := replied
  exact same

theorem position_eq_ok {input : MarketInput F} {position : F} (idle : w.working = [])
    (read : w.position input = .ok position) : position = -w.short := by
  unfold Market.position at read
  rw [idle] at read
  change (if F64.isFinite (-w.short) = true then Except.ok (-w.short)
    else .error (Failure.other "non-finite exchange number")) = .ok position at read
  split_ifs at read
  exact (Except.ok.inj read).symm

theorem spec_readAccount {P : Account F → Market F → Prop} (inv : Inv w) (idle : w.working = [])
    (holds : ∀ account : Account F, account.position = -w.short → P account w) :
    (machine text).spec Inv readAccount P w := by
  apply Machine.spec_call inv
  intro input
  rw [step_of_idle idle]
  refine ⟨inv, fun account replied => ?_⟩
  have read := reply_eq_ok replied
  cases position : w.position input with
  | error failure =>
      rw [position] at read
      cases read
  | ok position' =>
      rw [position] at read
      cases read
      exact holds _ (position_eq_ok idle position)

theorem spec_readPosition {P : F → Market F → Prop} (inv : Inv w) (idle : w.working = [])
    (holds : P (-w.short) w) : (machine text).spec Inv readPosition P w := by
  apply Machine.spec_call inv
  intro input
  rw [step_of_idle idle]
  refine ⟨inv, fun position replied => ?_⟩
  have read := position_eq_ok idle (reply_eq_ok replied)
  subst read
  exact holds

theorem spec_readBook {P : Book F → Market F → Prop} (inv : Inv w) (idle : w.working = [])
    (holds : ∀ book : Book F, Inv { w with books := book :: w.books } ∧
      P book { w with books := book :: w.books }) :
    (machine text).spec Inv readBook P w := by
  apply Machine.spec_call inv
  intro input
  rw [step_of_idle idle]
  change Inv (takeBook input w).2 ∧
    ∀ book, (takeBook input w).1 = .ok book → P book (takeBook input w).2
  unfold takeBook
  cases reply input input.book.check with
  | error failure =>
      refine ⟨inv, fun book same => ?_⟩
      cases same
  | ok book =>
      refine ⟨(holds book).1, fun book same => ?_⟩
      cases same
      exact (holds book).2

theorem wp_readAsset {Q : Except Failure (Nat × Asset) → Market F → Prop} (inv : Inv w)
    (idle : w.working = []) (holds : ∀ result, Q result w) :
    (machine text).wp Inv readAsset Q w := by
  refine Machine.wp_call.mpr ⟨inv, fun input => ?_⟩
  rw [step_of_idle idle]
  exact ⟨inv, holds _⟩

theorem spec_readAsset {P : Nat × Asset → Market F → Prop} (inv : Inv w) (idle : w.working = [])
    (holds : P w.asset w) : (machine text).spec Inv readAsset P w := by
  apply Machine.spec_call inv
  intro input
  rw [step_of_idle idle]
  refine ⟨inv, fun value replied => ?_⟩
  have read := reply_eq_ok replied
  cases read
  exact holds

theorem spec_freshCloid {P : String → Market F → Prop} (inv : Inv w) (idle : w.working = [])
    (holds : ∀ value, P value w) : (machine text).spec Inv freshCloid P w := by
  apply Machine.spec_call inv
  intro input
  rw [step_of_idle idle]
  exact ⟨inv, fun value _ => holds value⟩

theorem spec_clock {P : Nat → Market F → Prop} (inv : Inv w) (idle : w.working = [])
    (holds : ∀ value, P value w) : (machine text).spec Inv clock P w := by
  apply Machine.spec_call inv
  intro input
  rw [step_of_idle idle]
  exact ⟨inv, fun value _ => holds value⟩

theorem spec_writeResidual {row : Option (Residual F)} {P : Unit → Market F → Prop} (inv : Inv w)
    (idle : w.working = []) (kept : Inv { w with residual := row })
    (holds : P () { w with residual := row }) :
    (machine text).spec Inv (call (.writeResidual row)) P w := by
  apply Machine.spec_call inv
  intro input
  rw [step_of_idle idle]
  change Inv (putResidual row input w).2 ∧
    ∀ value, (putResidual row input w).1 = .ok value → P value (putResidual row input w).2
  unfold putResidual
  cases input.desk.reply with
  | ok _ => exact ⟨kept, fun _ _ => holds⟩
  | error failure =>
      constructor
      · dsimp only
        split_ifs
        · exact kept
        · exact inv
      · intro value same
        cases same

end Idle

section OnDesk

/-- The operations on the stored files act on their part of the market. -/
def embedding (text : Decimal.Text) :
    Machine.Embedding Desk.machine (machine text) (HedgeOp.desk (F := F)) fun _ reply => reply where
  input := MarketInput.desk
  world := Market.desk
  replies := by
    intro op input w
    have same : ∀ result : Except Failure op.Reply, (result.map fun reply => reply) = result := by
      intro result
      cases result with
      | ok _ | error _ => rfl
    exact same _
  step := fun _ _ _ => rfl

variable {text : Decimal.Text} {Frame : Market F → Prop} {w : Market F}

/-- What every operation on the stored files keeps, a program of them keeps. -/
theorem spec_onDesk {α : Type} {program : DeskProgram α} {DeskInv : Desk → Prop}
    {P : α → Desk → Prop}
    (kept : ∀ op input w, Frame w → Frame ((machine text).step (.desk op) input w).2)
    (frame : Frame w) (holds : Desk.machine.spec DeskInv program P w.desk) :
    (machine text).spec Frame (onDesk program) (fun value w => Frame w ∧ P value w.desk) w := by
  have everywhere := Machine.wp_embed (embedding text)
    (fun op input w (_ : True) => kept op input w) program.uses_always frame holds
  refine Machine.wp_mono_inv (Machine.wp_mono everywhere ?_) fun w both => both.1
  rintro result w - ⟨frame, post⟩ value same
  exact ⟨frame, post value same⟩

section Frames

variable {lo hi : F} {id : String}

/-- Only orders under this client id work. -/
def Only (id : String) (w : Market F) : Prop := ∀ o ∈ w.working, o.cloid = id

theorem Only.drift (only : Only id w) (input : MarketInput F) : Only id (w.drift input) := by
  intro o mem
  obtain ⟨old, stored, rfl⟩ := List.mem_map.mp (List.mem_of_mem_filter mem)
  exact only old stored

/-- An operation on the stored files leaves everything else to the exchange. -/
theorem within_desk (op : DeskOp) (input : MarketInput F) (within : Within lo hi w) :
    Within lo hi ((machine text).step (.desk op) input w).2 :=
  (within.drift input).filter rfl rfl

theorem only_desk (op : DeskOp) (input : MarketInput F) (only : Only id w) :
    Only id ((machine text).step (.desk op) input w).2 :=
  fun o mem => only.drift input o (List.mem_of_mem_filter mem)

theorem books_desk (op : DeskOp) (input : MarketInput F) :
    ((machine text).step (.desk op) input w).2.books = w.books := rfl

theorem desk_of_idle (idle : w.working = []) (op : DeskOp) (input : MarketInput F) :
    ((machine text).step (.desk op) input w).2 =
      { w with desk := (Desk.step op input.desk w.desk).2 } := by
  rw [step_of_idle idle]
  change { w with
    desk := (Desk.step op input.desk w.desk).2
    working := w.working.filter fun o => !reports o.cloid op (Desk.step op input.desk w.desk).1 } = _
  rw [idle]
  rfl

/-- While nothing works, a program on the stored files leaves the rest of the market. -/
theorem spec_onDesk_idle {α : Type} {program : DeskProgram α} {Inv : Market F → Prop}
    {P : α → Market F → Prop} (idle : w.working = [])
    (inv : ∀ desk, Inv { w with desk := desk }) (holds : ∀ value desk, P value { w with desk := desk }) :
    (machine text).spec Inv (onDesk program) P w := by
  have kept : ∀ op input w', (∃ desk, w' = { w with desk := desk }) →
      ∃ desk, ((machine text).step (.desk op) input w').2 = { w with desk := desk } := by
    rintro op input w' ⟨desk, rfl⟩
    have idle' : ({ w with desk := desk } : Market F).working = [] := idle
    exact ⟨_, desk_of_idle idle' op input⟩
  have spec := spec_onDesk kept ⟨w.desk, rfl⟩ (Machine.spec_always program w.desk)
  refine Machine.wp_mono_inv (Machine.spec_mono spec ?_) ?_
  · rintro value w' - ⟨⟨desk, rfl⟩, -⟩
    exact holds value desk
  · rintro w' ⟨desk, rfl⟩
    exact inv desk

end Frames

end OnDesk

section Orders

variable {text : Decimal.Text} {w : Market F}

/-- What a new order may do to a market where nothing works. -/
structure Ordered (id : String) (buy : Bool) (tif : String) (size : F) (w : Market F)
    (result : Except Failure Unit) (w' : Market F) : Prop where
  books : w'.books = w.books
  asset : w'.asset = w.asset
  exposed : ∃ traded left, 0 ≤ traded ∧ 0 ≤ left ∧ traded + left ≤ size ∧
    w'.short = w.short + Working.moves buy traded ∧
    (w'.working = [] ∨ w'.working = [⟨id, buy, left⟩])
  immediate : result = .ok () → tif = "Ioc" → w'.working = []
  final : result = .ok () → ∀ order, w'.desk.ledger.get id = some order → order.terminal = true →
    w'.working = []
  rejected : ∀ failure, result = .error failure → failure.isExchangeRejected = true →
    w'.working = []

omit [F64 F] in
theorem keep_get {id status : String} {terminal : Bool} {oid : Option Nat} {pending : Json}
    {record : Order} (fresh : w.desk.ledger.get id = none) {order : Order}
    (found : (w.keep id status terminal oid pending record).desk.ledger.get id = some order) :
    order.terminal = terminal := by
  change (w.desk.ledger.orInsert { record with
    cloid := id
    oid := oid
    managedHedge := true
    status := status
    terminal := terminal }).get id = some order at found
  unfold Ledger.orInsert at found
  rw [dif_pos fresh] at found
  rw [Ledger.get_insert_same fresh] at found
  cases found
  rfl

/-- What a new order trades and what is left of it. -/
theorem execute_exposed (id : String) (buy rests : Bool) (executed : F) {size : F}
    (nonneg : 0 ≤ size) (idle : w.working = []) : ∃ traded left, 0 ≤ traded ∧ 0 ≤ left ∧ traded + left ≤ size ∧
    (w.execute id buy rests size executed).short = w.short + Working.moves buy traded ∧
    (w.execute id buy rests size executed).working = if rests then [⟨id, buy, left⟩] else [] := by
  obtain ⟨some, most⟩ := F64.clamp_mem (x := executed) nonneg
  refine ⟨F64.clamp executed 0 size, size - F64.clamp executed 0 size, some, sub_nonneg.mpr most,
    ?_, rfl, ?_⟩
  · rw [add_sub_cancel]
  · change (if rests then _ :: w.working else w.working) = _
    rw [idle]

theorem ordered_of_execute {id tif : String} {buy rests : Bool} {size executed : F}
    {w₁ : Market F} {result : Except Failure Unit} (nonneg : 0 ≤ size) (idle : w₁.working = [])
    (books : w₁.books = w.books) (asset : w₁.asset = w.asset) (short : w₁.short = w.short)
    (immediate : result = .ok () → tif = "Ioc" → rests = false)
    (final : result = .ok () → ∀ order, w₁.desk.ledger.get id = some order →
      order.terminal = true → rests = false)
    (rejected : ∀ failure, result = .error failure → failure.isExchangeRejected = true →
      rests = false) :
    Ordered id buy tif size w result (w₁.execute id buy rests size executed) := by
  obtain ⟨traded, left, some, rest, most, moved, working⟩ :=
    execute_exposed id buy rests executed nonneg idle
  have finished : rests = false → (w₁.execute id buy rests size executed).working = [] := by
    intro none
    rw [working, none]
    rfl
  refine ⟨books, asset, ⟨traded, left, some, rest, most, ?_, ?_⟩, ?_, ?_, ?_⟩
  · rw [moved, short]
  · cases rests with
    | false => exact .inl working
    | true => exact .inr working
  · exact fun ok ioc => finished (immediate ok ioc)
  · exact fun ok order found terminal => finished (final ok order found terminal)
  · exact fun failure failed known => finished (rejected failure failed known)

theorem ordered_of_unmoved {id tif : String} {buy : Bool} {size : F} {w' : Market F}
    {result : Except Failure Unit} (nonneg : 0 ≤ size) (idle : w'.working = [])
    (books : w'.books = w.books) (asset : w'.asset = w.asset) (short : w'.short = w.short) :
    Ordered id buy tif size w result w' where
  books := books
  asset := asset
  exposed := by
    refine ⟨0, 0, le_refl _, le_refl _, by rwa [add_zero], ?_, .inl idle⟩
    rw [short]
    cases buy with
    | true => simp [Working.moves]
    | false => simp [Working.moves]
  immediate := fun _ _ => idle
  final := fun _ _ _ _ => idle
  rejected := fun _ _ _ => idle

theorem send_ordered {id : String} {size : F} {wire : Wire} (input : MarketInput F)
    (nonneg : 0 ≤ size) (idle : w.working = []) (fresh : w.desk.ledger.get id = none) :
    Ordered id wire.buy wire.tif size w (w.send size id wire input).1
      (w.send size id wire input).2 := by
  unfold send
  cases input.placement with
  | unsent failure => exact ordered_of_unmoved nonneg idle rfl rfl rfl
  | rejected => exact ordered_of_unmoved nonneg idle rfl rfl rfl
  | filled oid =>
      refine ordered_of_execute nonneg idle rfl rfl rfl (fun _ _ => rfl) (fun _ _ _ _ => rfl) ?_
      intro failure failed
      cases failed
  | resting oid =>
      refine ordered_of_execute nonneg idle rfl rfl rfl ?_ ?_ ?_
      · intro _ ioc
        simp [ioc]
      · intro _ order found terminal
        rw [keep_get fresh found] at terminal
        cases terminal
      · intro failure failed
        cases failed
  | lost message =>
      refine ordered_of_execute nonneg idle rfl rfl rfl ?_ ?_ ?_
      · intro ok
        cases ok
      · intro ok
        cases ok
      · intro failure failed known
        cases failed
        cases known

theorem wire_eq_ok {asset : Nat} {a : Asset} {buy reduce : Bool} {price size tif : String}
    {cloid : Option String} {wire : Wire}
    (built : Orders.wire text asset a buy price size tif reduce cloid = .ok wire) :
    wire.buy = buy ∧ wire.tif = tif ∧ wire.cloid = cloid ∧ ∃ q, text.parse size = some q ∧
      text.parse wire.size = some q.normalize ∧ 0 ≤ (q.value : F) := by
  unfold Orders.wire at built
  simp only [bind_eq_ok, context_eq_ok, ensure_eq_ok, pure_eq_ok] at built
  obtain ⟨p, -, q, parsed, _, ⟨positive, -⟩, _, -, _, -, _, -, rfl⟩ := built
  refine ⟨rfl, rfl, rfl, q, parsed, text.parse_format _, ?_⟩
  rw [Decimal.value_nonneg]
  have above : (0 : ℚ) < q.normalize.value := positive
  rw [Decimal.value_normalize, Decimal.value_pos] at above
  exact above.le

theorem exchange_ordered {id : String} {wire : Wire} {q : Decimal} (input : MarketInput F)
    (named : wire.cloid = some id) (parsed : text.parse wire.size = some q)
    (nonneg : 0 ≤ (q.value : F)) (idle : w.working = []) :
    Ordered id wire.buy wire.tif (q.value : F) w (w.exchange text wire input).1
      (w.exchange text wire input).2 := by
  unfold exchange
  rw [named, parsed]
  dsimp only
  split_ifs with used
  · exact ordered_of_unmoved nonneg idle rfl rfl rfl
  · rw [Option.not_isSome_iff_eq_none] at used
    exact send_ordered input nonneg idle used

/-- A managed order fails before it is sent, or does what an order may do. -/
theorem wp_managedOrder {Inv : Market F → Prop} {Q : Except Failure Unit → Market F → Prop}
    {buy : Bool} {price size tif cloid : String} (inv : Inv w) (idle : w.working = [])
    (failed : ∀ failure, Q (.error failure) w)
    (ordered : ∀ q, text.parse size = some q → ∀ result w',
      Ordered cloid buy tif (q.value : F) w result w' → Inv w' ∧ Q result w') :
    (machine text).wp Inv (Controller.managedOrder text buy price size tif cloid) Q w := by
  unfold Controller.managedOrder
  rw [Machine.wp_bind]
  apply wp_readAsset inv idle
  intro result
  cases result with
  | error failure => exact failed failure
  | ok value =>
      refine Machine.wp_bind.mpr (Machine.wp_ofExcept.mpr ⟨inv, ?_⟩)
      cases built : Orders.wire text value.1 value.2 buy price size tif buy (some cloid) with
      | error message => exact failed _
      | ok wire =>
          obtain ⟨side, inForce, named, q, parsed, sent, nonneg⟩ := wire_eq_ok (F := F) built
          refine Machine.wp_call.mpr ⟨inv, fun input => ?_⟩
          rw [step_of_idle idle]
          have whole : 0 ≤ (q.normalize.value : F) := by
            rw [Decimal.value_normalize]
            exact nonneg
          have here := exchange_ordered input named sent whole idle
          rw [side, inForce, Decimal.value_normalize] at here
          exact ordered q parsed _ _ here

end Orders

end Market

end LpMaker.Hyperliquid
