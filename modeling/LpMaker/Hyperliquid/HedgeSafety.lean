import LpMaker.Hyperliquid.HedgeRules
import LpMaker.Hyperliquid.PriceGrid
import LpMaker.Shipped

/-!
# The hedge never overshoots

Whatever the exchange fills and when, the short position stays between where it started and the
effective target: an order is only sent while no other works, for at most the difference, and the
passive order is over before the position is read again.
-/

namespace LpMaker.Hyperliquid

open Semantics Journal OrderRecovery Market

section Cancel

variable {id user : String} {start middle w : Desk}

/-- A final record was final before, or an answer since the start reports the order as final. -/
def Accounted (id : String) (start w : Desk) : Prop :=
  ∃ answers, w.answers = answers ++ start.answers ∧
    ∀ order, w.ledger.get id = some order → order.terminal = true →
      start.ledger.get id = some order ∨
        ∃ query response, (.orderStatus query, response) ∈ answers ∧ isFinal id response = true

theorem accounted_refl : Accounted id w w := ⟨[], rfl, fun _ recorded _ => .inl recorded⟩

theorem Accounted.trans (first : Accounted id start middle) (second : Accounted id middle w) :
    Accounted id start w := by
  obtain ⟨earlier, asked, before⟩ := first
  obtain ⟨later, asked', after⟩ := second
  refine ⟨later ++ earlier, ?_, fun order recorded terminal => ?_⟩
  · rw [asked', asked, List.append_assoc]
  · rcases after order recorded terminal with old | ⟨query, response, mem, final⟩
    · rcases before order old terminal with oldest | ⟨query, response, mem, final⟩
      · exact .inl oldest
      · exact .inr ⟨query, response, List.mem_append_right _ mem, final⟩
    · exact .inr ⟨query, response, List.mem_append_left _ mem, final⟩

theorem isFinal_of_confirms {response : Json} {order : Order} (confirms : Confirms id response order)
    (terminal : order.terminal = true) : isFinal id response = true := by
  have final : terminalStatus order.status = true := confirms.terminal.symm.trans terminal
  unfold isFinal
  rw [confirms.status, Option.any_some, final]
  exact decide_eq_true ⟨confirms.describes, rfl, confirms.own⟩

theorem Accounted.of_grounded (grounded : Grounded id start w) : Accounted id start w := by
  obtain ⟨answers, since⟩ := grounded
  refine ⟨answers, since.asked, fun order recorded terminal => ?_⟩
  rcases since.evidence.confirmed recorded with old | ⟨response, shown, confirms⟩
  · exact .inl old
  · cases shown with
    | answered mem => exact .inr ⟨_, response, mem, isFinal_of_confirms confirms terminal⟩
    | listed mem array row =>
        -- an open order is never final
        have isOpen : order.status = "open" := (Option.some.inj confirms.status).symm
        have final := confirms.terminal.symm.trans terminal
        rw [isOpen] at final
        exact absurd final (by decide)

theorem spec_resolve_accounted {terminalOnly : Bool} (accounted : Accounted id start w) :
    Desk.machine.spec (Accounted id start) (resolve user id terminalOnly)
      (Concluded id terminalOnly w) w :=
  Machine.wp_mono_inv (spec_resolve user id terminalOnly w) fun _ grounded =>
    accounted.trans (.of_grounded grounded)

theorem spec_confirmCancelled_accounted (accounted : Accounted id start w) :
    Desk.machine.spec (Accounted id start) (Controller.confirmCancelled user id)
      (fun _ w' => Accounted id start w' ∧
        ∃ order, w'.ledger.get id = some order ∧ order.terminal = true) w := by
  unfold Controller.confirmCancelled
  apply Machine.spec_bind
  apply Machine.spec_mono (spec_resolve_accounted accounted)
  rintro after w' accounted' ⟨answers, order, since, recorded, final, -⟩
  apply Machine.spec_ofExcept accounted'
  intro _ _
  exact ⟨accounted', order, recorded, final rfl⟩

/-- An order is over once `cancelIfOpen` succeeds, and its record or an answer says so. -/
theorem spec_cancelIfOpen_accounted (accounted : Accounted id start w) :
    Desk.machine.spec (Accounted id start) (Controller.cancelIfOpen user id)
      (fun _ w' => Accounted id start w' ∧
        ∃ order, w'.ledger.get id = some order ∧ order.terminal = true) w := by
  unfold Controller.cancelIfOpen
  apply Machine.spec_bind
  apply Machine.spec_mono (spec_resolve_accounted accounted)
  rintro status w₁ accounted₁ ⟨answers, order, since, recorded, -, grounds⟩
  by_cases isOpen : describesOrder status ∧ responseStatus status = some "open"
  · rw [if_pos isOpen]
    apply Machine.spec_bind
    apply Desk.spec_cancel accounted₁
    intro pending result
    have accounted₂ : Accounted id start { w₁ with
        pending := pending
        cancelled := (id, w₁.ledger.get id) :: w₁.cancelled } := accounted₁
    refine ⟨accounted₂, ?_⟩
    cases result with
    | ok _ => exact spec_confirmCancelled_accounted accounted₂
    | error failure =>
        apply Machine.spec_bind
        apply Desk.spec_readPending accounted₂
        split_ifs
        · exact Machine.spec_throw accounted₂
        · exact spec_confirmCancelled_accounted accounted₂
  · rw [if_neg isOpen]
    apply Machine.spec_pure accounted₁
    refine ⟨accounted₁, order, recorded, ?_⟩
    rcases grounds with ⟨terminal, -, -⟩ | ⟨-, confirms, live | terminal⟩
    · exact terminal
    · rw [confirms.status, live] at isOpen
      exact absurd ⟨confirms.describes, rfl⟩ isOpen
    · exact terminal

end Cancel

variable {F : Type} [F64 F]

section Over

variable {text : Decimal.Text} {id user : String} {lo hi : F} {start w : Market F}

/-- The order `id` is the only one which works, and it no longer does once an answer reports it
as final. -/
structure Watched (id : String) (start w : Market F) : Prop where
  only : Only id w
  stopped : start.working = [] → w.working = []
  answered : ∃ answers, w.desk.answers = answers ++ start.desk.answers ∧
    ((∃ query response, (.orderStatus query, response) ∈ answers ∧ isFinal id response = true) →
      w.working = [])

theorem write_answers {input : DeskInput} {written w : Desk} (same : written.answers = w.answers) :
    (Desk.write input written w).2.answers = w.answers := by
  unfold Desk.write
  cases input.reply with
  | ok _ => exact same
  | error _ =>
      cases input.applied with
      | true => exact same
      | false => rfl

/-- Only a question adds an answer. -/
theorem desk_answers (op : DeskOp) (input : DeskInput) (w : Desk) :
    (Desk.step op input w).2.answers = w.answers ∨
      ∃ question answer, op = .ask question ∧ input.reply = .ok answer ∧
        (Desk.step op input w).2.answers = (question, answer) :: w.answers := by
  cases op with
  | readOrders | readHedgeOrder | readPending =>
      left
      change (Desk.read input _ w).2.answers = w.answers
      unfold Desk.read
      cases input.reply with
      | ok _ | error _ => rfl
  | updateOrders change =>
      left
      simp only [Desk.step]
      cases change input.nowMs w.ledger with
      | ok ledger => exact write_answers rfl
      | error failure => rfl
  | archiveOrder order => exact .inl (write_answers rfl)
  | writeHedgeOrder value => exact .inl (write_answers rfl)
  | record => exact .inl (write_answers rfl)
  | ask question =>
      change (Desk.ask question input w).2.answers = w.answers ∨
        ∃ question' answer, DeskOp.ask question = .ask question' ∧ input.reply = .ok answer ∧
          (Desk.ask question input w).2.answers = (question', answer) :: w.answers
      unfold Desk.ask
      cases input.reply with
      | ok answer => exact .inr ⟨question, answer, rfl, rfl, rfl⟩
      | error failure => exact .inl rfl
  | cancel cloid => exact .inl rfl

theorem drift_desk (input : MarketInput F) : (w.drift input).desk = w.desk := rfl

theorem drift_working (idle : w.working = []) (input : MarketInput F) :
    (w.drift input).working = [] := by
  rw [drift_of_idle idle]
  exact idle

/-- Which orders still work after an operation on the stored files. -/
theorem desk_working (op : DeskOp) (input : MarketInput F) :
    ((machine text).step (.desk op) input w).2.working =
      (w.drift input).working.filter fun o => !reports o.cloid op (Desk.step op input.desk w.desk).1 :=
  rfl

theorem stopped_desk (op : DeskOp) (input : MarketInput F) (idle : w.working = []) :
    ((machine text).step (.desk op) input w).2.working = [] := by
  rw [desk_working, drift_working idle]
  rfl

/-- A final answer stops the order. -/
theorem stopped_of_answer {query answer : Json} {input : MarketInput F} (only : Only id w)
    (replied : input.desk.reply = .ok answer) (final : isFinal id answer = true) :
    ((machine text).step (.desk (.ask (.orderStatus query))) input w).2.working = [] := by
  rw [desk_working, List.filter_eq_nil_iff]
  intro o mem
  have named : o.cloid = id := only.drift input o mem
  have said : (Desk.step (.ask (.orderStatus query)) input.desk w.desk).1 = .ok answer := by
    change (Desk.ask (.orderStatus query) input.desk w.desk).1 = .ok answer
    unfold Desk.ask
    rw [replied]
  rw [said, named]
  change ¬(!isFinal id answer) = true
  rw [final]
  decide

theorem watched_desk (op : DeskOp) (input : MarketInput F) (watched : Watched id start w) :
    Watched id start ((machine text).step (.desk op) input w).2 where
  only := only_desk op input watched.only
  stopped := fun idle => stopped_desk op input (watched.stopped idle)
  answered := by
    obtain ⟨answers, asked, finished⟩ := watched.answered
    rcases desk_answers op input.desk w.desk with same | ⟨question, answer, rfl, replied, added⟩
    · refine ⟨answers, same.trans asked, fun final => ?_⟩
      exact stopped_desk op input (finished final)
    · refine ⟨(question, answer) :: answers, ?_, ?_⟩
      · exact added.trans (congrArg _ asked)
      · rintro ⟨query, response, mem, final⟩
        rcases List.mem_cons.mp mem with here | old
        · cases here
          exact stopped_of_answer watched.only replied final
        · exact stopped_desk _ input (finished ⟨query, response, old, final⟩)

/-- Once `cancelIfOpen` succeeds, the order no longer works. -/
theorem spec_cancel_over {Inv : Market F → Prop} (inv : Inv w) (only : Only id w)
    (final : ∀ order, w.desk.ledger.get id = some order → order.terminal = true → w.working = [])
    (kept : ∀ op input w', Inv w' → Inv ((machine text).step (.desk op) input w').2) :
    (machine text).spec Inv (onDesk (Controller.cancelIfOpen user id))
      (fun _ w' => Inv w' ∧ w'.working = []) w := by
  have watched : Watched id w w := ⟨only, fun idle => idle, [], rfl, by simp⟩
  have cancelled : Desk.machine.spec (Accounted id w.desk) (Controller.cancelIfOpen user id)
      (fun _ w' => Accounted id w.desk w' ∧
        ∃ order, w'.ledger.get id = some order ∧ order.terminal = true) w.desk :=
    spec_cancelIfOpen_accounted accounted_refl
  have frame : ∀ op input w', Inv w' ∧ Watched id w w' →
      Inv ((machine text).step (.desk op) input w').2 ∧
        Watched id w ((machine text).step (.desk op) input w').2 := by
    rintro op input w' ⟨inv', watched'⟩
    exact ⟨kept op input w' inv', watched_desk op input watched'⟩
  have both := spec_onDesk frame ⟨inv, watched⟩ cancelled
  refine Machine.wp_mono_inv (Machine.spec_mono both ?_) fun w' frame => frame.1
  rintro _ w' - ⟨⟨inv', watched'⟩, ⟨answers, asked, grounds⟩, order, recorded, terminal⟩
  refine ⟨inv', ?_⟩
  rcases grounds order recorded terminal with before | answer
  · exact watched'.stopped (final order before terminal)
  · obtain ⟨answers', asked', finished⟩ := watched'.answered
    have same : answers = answers' := List.append_cancel_right (asked.symm.trans asked')
    subst same
    exact finished answer

end Over

section Bounds

variable {text : Decimal.Text} {lo hi target size : F} {books : List (Book F)}
  {asset : Nat × Asset} {w w' : Market F}

/-- The short position keeps between the bounds, and the books are read in order. -/
structure Bounded (lo hi : F) (books : List (Book F)) (asset : Nat × Asset) (w : Market F) :
    Prop where
  within : Within lo hi w
  books : ∃ later, w.books = later ++ books
  asset : w.asset = asset

theorem bounded_desk (op : DeskOp) (input : MarketInput F) (bounded : Bounded lo hi books asset w) :
    Bounded lo hi books asset ((machine text).step (.desk op) input w).2 where
  within := within_desk op input bounded.within
  books := bounded.books
  asset := bounded.asset

/-- The parts of a market which the bounds do not mention. -/
theorem Bounded.of_same (bounded : Bounded lo hi books asset w) (short : w'.short = w.short)
    (working : w'.working = w.working) (read : w'.books = w.books) (same : w'.asset = w.asset) :
    Bounded lo hi books asset w' where
  within := bounded.within.of_same short working
  books := by
    rw [read]
    exact bounded.books
  asset := same.trans bounded.asset

theorem Bounded.book (bounded : Bounded lo hi books asset w) (book : Book F) :
    Bounded lo hi books asset { w with books := book :: w.books } where
  within := bounded.within.of_same rfl rfl
  books := by
    obtain ⟨later, read⟩ := bounded.books
    exact ⟨book :: later, congrArg _ read⟩
  asset := bounded.asset

/-- An order for at most the difference, in its direction, keeps between the bounds. -/
theorem Bounded.ordered {id tif : String} {buy : Bool} {result : Except Failure Unit}
    (bounded : Bounded lo hi books asset w) (above : lo ≤ target) (below : target ≤ hi)
    (side : buy = decide (target - w.short < 0)) (most : size ≤ |target - w.short|)
    (ordered : Ordered id buy tif size w result w') : Bounded lo hi books asset w' where
  within := by
    obtain ⟨traded, left, some, rest, total, moved, working⟩ := ordered.exposed
    obtain ⟨low, high⟩ := bounded.within.short_mem
    have nonneg : ∀ o ∈ w'.working, 0 ≤ o.left := by
      intro o mem
      rcases working with none | one
      · rw [none] at mem
        cases mem
      · rw [one, List.mem_singleton] at mem
        subst mem
        exact rest
    have limits : Working.bought w'.working ≤ (if buy then left else 0) ∧
        Working.sold w'.working ≤ if buy then 0 else left := by
      rcases working with none | one
      · rw [none, Working.bought_nil, Working.sold_nil]
        cases buy with
        | true => exact ⟨rest, le_refl _⟩
        | false => exact ⟨le_refl _, rest⟩
      · rw [one, Working.bought_cons, Working.sold_cons, Working.bought_nil, Working.sold_nil,
          add_zero, add_zero]
        exact ⟨le_refl _, le_refl _⟩
    obtain ⟨buys, sells⟩ := limits
    refine ⟨nonneg, ?_, ?_⟩
    · rw [moved]
      unfold Working.moves
      cases buy with
      | true =>
          have down : target - w.short < 0 := of_decide_eq_true side.symm
          rw [abs_of_neg down] at most
          simp only [if_true] at buys ⊢
          linarith
      | false =>
          simp only [Bool.false_eq_true, if_false] at buys ⊢
          linarith
    · rw [moved]
      unfold Working.moves
      cases buy with
      | true =>
          simp only [if_true] at sells ⊢
          linarith
      | false =>
          have up : 0 ≤ target - w.short := not_lt.mp (of_decide_eq_false side.symm)
          rw [abs_of_nonneg up] at most
          simp only [Bool.false_eq_true, if_false] at sells ⊢
          linarith
  books := by
    rw [ordered.books]
    exact bounded.books
  asset := ordered.asset.trans bounded.asset

end Bounds

section Programs

variable {text : Decimal.Text} {lo hi target mid : F} {books : List (Book F)}
  {asset : Nat × Asset} {w : Market F} {user : String}

/-- Writing down a residual leaves everything else. -/
theorem spec_hedgeResidual {actual price : F} {reason : String} {P : Unit → Market F → Prop}
    (bounded : Bounded lo hi books asset w) (idle : w.working = [])
    (holds : ∀ desk, P () { w with
      desk := desk
      residual := residualRow target actual price reason }) :
    (machine text).spec (Bounded lo hi books asset)
      (Controller.hedgeResidual target actual price reason) P w := by
  unfold Controller.hedgeResidual
  have kept : ∀ desk, Bounded lo hi books asset { w with
      desk := desk
      residual := residualRow target actual price reason } :=
    fun _ => bounded.of_same rfl rfl rfl rfl
  apply Machine.spec_bind
  apply spec_writeResidual bounded idle (kept w.desk)
  cases row : residualRow target actual price reason with
  | none =>
      rw [row] at kept holds
      exact Machine.spec_pure (kept w.desk) (holds w.desk)
  | some _ =>
      rw [row] at kept holds
      exact spec_onDesk_idle idle kept fun _ desk => holds desk

/-- A passive order is over before the program goes on. -/
theorem spec_passive {buy : Bool} {px size cloid : String}
    (bounded : Bounded lo hi books asset w) (idle : w.working = []) (above : lo ≤ target)
    (below : target ≤ hi) (side : buy = decide (target - w.short < 0))
    (most : ∀ q, text.parse size = some q → (q.value : F) ≤ |target - w.short|) :
    (machine text).spec (Bounded lo hi books asset)
      (Controller.passive text user buy px size cloid)
      (fun _ w' => Bounded lo hi books asset w' ∧ w'.working = []) w := by
  unfold Controller.passive
  apply Machine.spec_bind
  have sent : (machine text).wp (Bounded lo hi books asset)
      (Controller.managedOrder text buy px size "Alo" cloid)
      (fun result w' => Bounded lo hi books asset w' ∧
        (result = .ok () → Only cloid w' ∧ ∀ order, w'.desk.ledger.get cloid = some order →
          order.terminal = true → w'.working = []) ∧
        ∀ failure, result = .error failure → failure.isExchangeRejected = true →
          w'.working = []) w := by
    apply wp_managedOrder bounded idle
    · intro failure
      exact ⟨bounded, (fun same => by cases same), fun _ _ _ => idle⟩
    · intro q parsed result w' ordered
      have bounded' := bounded.ordered above below side (most q parsed) ordered
      refine ⟨bounded', bounded', ?_⟩
      constructor
      · rintro rfl
        refine ⟨?_, ordered.final rfl⟩
        obtain ⟨-, left, -, -, -, -, none | one⟩ := ordered.exposed
        · intro o mem
          rw [none] at mem
          cases mem
        · intro o mem
          rw [one, List.mem_singleton] at mem
          rw [mem]
      · rintro failure rfl
        exact ordered.rejected failure rfl
  refine Machine.wp_attempt.mpr (Machine.wp_mono sent ?_)
  rintro result w' - ⟨bounded', placed, refused⟩ value same
  cases same
  cases result with
  | ok _ =>
      obtain ⟨only, final⟩ := placed rfl
      exact spec_cancel_over bounded' only final fun op input _ => bounded_desk op input
  | error failure =>
      apply Machine.spec_bind
      cases rejected : failure.isExchangeRejected with
      | false =>
          -- the result is uncertain, and the failure ends the program
          have read : (machine text).spec (Bounded lo hi books asset) (onDesk Desk.readPending)
              (fun _ w'' => Bounded lo hi books asset w'' ∧ True) w' :=
            spec_onDesk (fun op input _ => bounded_desk op input) bounded'
              (Machine.spec_always Desk.readPending w'.desk)
          apply Machine.spec_mono read
          intro pending w'' bounded'' _
          rw [if_pos (.inr rfl)]
          exact Machine.spec_throw bounded''
      | true =>
          have idle' := refused failure rfl rejected
          have kept : ∀ desk, Bounded lo hi books asset { w' with desk := desk } :=
            fun _ => bounded'.of_same rfl rfl rfl rfl
          apply spec_onDesk_idle idle' kept
          intro pending desk
          by_cases stops : pending.isNull = false ∨ true = false
          · rw [if_pos stops]
            exact Machine.spec_throw (kept desk)
          · rw [if_neg stops]
            exact spec_onDesk_idle idle' kept fun _ desk => ⟨kept desk, idle'⟩

section Outcome

variable [FloorRing F]

/-- The difference makes no order: it is below one lot, or it opens less than 10 USD at the limit
price of its order. -/
def Untradeable (slip : F) (szDecimals : Nat) (books : List (Book F)) (difference : F) : Prop :=
  ∃ q : Decimal, 0 ≤ (q.value : F) ∧ (q.value : F) ≤ |difference| ∧
    |difference| < q.value + 1 / 10 ^ szDecimals ∧
    ((q.value : F) = 0 ∨ 0 ≤ difference ∧ ∃ book ∈ books, ∃ (x : F) (p : Decimal),
      (x = book.ask ∨ x = book.bid * (1 - slip)) ∧ |(p.value : F) - x| < Orders.step x szDecimals ∧
      (p.value : F) * q.value < 10)

/-- What a hedge which succeeds leaves. -/
structure Settled (slip deadband target mid : F) (emergency : Bool) (w : Market F) : Prop where
  idle : w.working = []
  residual : ∃ book ∈ w.books, ∃ reason,
    w.residual = residualRow target w.short book.mid reason
  close : emergency = true → |target - w.short| * mid < 0.01 ∨
    |target - w.short| * mid < min deadband 10 ∨
    Untradeable slip w.asset.2.szDecimals w.books (target - w.short)

theorem tradeable_eq_false {px sz : String} {reduce : Bool}
    (refused : Orders.tradeable text px sz reduce = .ok false) :
    ∃ p q, text.parse px = some p ∧ text.parse sz = some q ∧
      ((q.value : F) = 0 ∨ reduce = false ∧ (p.value : F) * q.value < 10) := by
  unfold Orders.tradeable at refused
  simp only [bind_eq_ok, context_eq_ok, ensure_eq_ok, pure_eq_ok, decide_eq_false_iff_not] at refused
  obtain ⟨p, price, q, size, _, ⟨-, nonneg⟩, refused⟩ := refused
  refine ⟨p, q, price, size, ?_⟩
  rcases nonneg.lt_or_eq with positive | zero
  · right
    rw [not_and, not_or] at refused
    obtain ⟨opening, little⟩ := refused positive
    refine ⟨Bool.eq_false_iff.mpr opening, ?_⟩
    have cast : (((p.value : ℚ) * q.value : ℚ) : F) < ((10 : ℚ) : F) :=
      Rat.cast_lt.mpr (not_le.mp little)
    rw [Rat.cast_mul, Decimal.value_cast, Decimal.value_cast] at cast
    exact_mod_cast cast
  · left
    rw [← Decimal.value_cast (F := F), ← zero, Rat.cast_zero]

theorem untradeable_of_refused {conversion : F → Option Decimal} {slip difference x : F}
    {szDecimals : Nat} {book : Book F} {px sz : String} {up : Bool}
    (exact : ∀ x d, conversion x = some d → (d.value : F) = x) (read : book ∈ books)
    (priced : Orders.price conversion text x szDecimals up = .ok px)
    (sized : Orders.quantity conversion text |difference| szDecimals = .ok sz)
    (limit : 0 ≤ difference → x = book.ask ∨ x = book.bid * (1 - slip))
    (refused : Orders.tradeable text px sz (decide (difference < 0)) = .ok false) :
    Untradeable slip szDecimals books difference := by
  obtain ⟨p, q, price, size, small⟩ := tradeable_eq_false (F := F) refused
  obtain ⟨p', price', -, -, near⟩ := Orders.price_on_grid exact priced
  obtain ⟨q', size', nonneg, below, lot, -⟩ := Orders.quantity_le exact sized
  have sameP : p' = p := Option.some.inj (price'.symm.trans price)
  have sameQ : q' = q := Option.some.inj (size'.symm.trans size)
  subst sameP sameQ
  refine ⟨q', nonneg, below, lot, ?_⟩
  rcases small with zero | ⟨opening, little⟩
  · exact .inl zero
  · have up : 0 ≤ difference := not_lt.mp (of_decide_eq_false opening)
    exact .inr ⟨up, book, read, x, p', limit up, near, little⟩

section Hedge

variable {conversion : F → Option Decimal} (hl : HyperliquidConfig) (s : StrategyConfig F)
  {first : Book F} {emergency : Bool}

omit [FloorRing F] in
theorem mem_books (bounded : Bounded lo hi books asset w) (read : first ∈ books) :
    first ∈ w.books := by
  obtain ⟨later, appended⟩ := bounded.books
  rw [appended]
  exact List.mem_append_right _ read

theorem spec_checkSweep (bounded : Bounded lo hi books asset w) (idle : w.working = [])
    (read : first ∈ books) :
    (machine text).spec (Bounded lo hi books asset)
      (Controller.checkSweep s target first.mid)
      (fun _ => Settled (Controller.slippage hl) s.hedgeDeadbandUsd target first.mid emergency) w := by
  unfold Controller.checkSweep
  apply Machine.spec_bind
  apply spec_readPosition bounded idle
  apply Machine.spec_bind
  apply Machine.spec_ofExcept bounded
  intro _ close
  rw [ensure_eq_ok, neg_neg] at close
  apply Machine.spec_bind
  have kept : ∀ desk, Bounded lo hi books asset { w with desk := desk } :=
    fun _ => bounded.of_same rfl rfl rfl rfl
  apply spec_onDesk_idle idle kept
  intro _ desk
  apply spec_hedgeResidual (kept desk) idle
  intro desk'
  rw [neg_neg]
  have mem := mem_books bounded read
  exact ⟨idle, ⟨first, mem, _, rfl⟩, fun _ => .inr (.inl close)⟩

theorem spec_sweep (exact : ∀ x d, conversion x = some d → (d.value : F) = x)
    (bounded : Bounded lo hi books asset w) (idle : w.working = []) (above : lo ≤ target)
    (below : target ≤ hi) (read : first ∈ books) :
    (machine text).spec (Bounded lo hi books asset)
      (Controller.sweep text conversion hl s target w.short first.mid asset.2)
      (fun _ => Settled (Controller.slippage hl) s.hedgeDeadbandUsd target first.mid emergency) w := by
  unfold Controller.sweep
  apply Machine.spec_bind
  apply spec_readBook bounded idle
  intro book
  have bounded₁ := bounded.book book
  have idle₁ : ({ w with books := book :: w.books } : Market F).working = [] := idle
  refine ⟨bounded₁, ?_⟩
  apply Machine.spec_bind
  apply spec_clock bounded₁ idle₁
  intro now
  apply Machine.spec_bind
  apply Machine.spec_ofExcept bounded₁
  intro _ _
  apply Machine.spec_bind
  apply Machine.spec_ofExcept bounded₁
  intro px priced
  apply Machine.spec_bind
  apply Machine.spec_ofExcept bounded₁
  intro sz sized
  apply Machine.spec_bind
  apply Machine.spec_ofExcept bounded₁
  intro worthwhile tradeable
  rw [mapError_eq_ok] at priced sized tradeable
  have most : ∀ q, text.parse sz = some q → (q.value : F) ≤ |target - w.short| := by
    intro q parsed
    obtain ⟨q', parsed', -, below, -⟩ := Orders.quantity_le exact sized
    rw [parsed] at parsed'
    cases parsed'
    exact below
  cases worthwhile with
  | false =>
      rw [if_pos rfl]
      apply spec_hedgeResidual bounded₁ idle₁
      intro desk
      refine ⟨idle, ⟨book, List.mem_cons_self, _, rfl⟩, fun _ => .inr (.inr ?_)⟩
      have same : w.asset.2.szDecimals = asset.2.szDecimals := by
        rw [bounded.asset]
      change Untradeable _ w.asset.2.szDecimals (book :: w.books) (target - w.short)
      rw [same]
      refine untradeable_of_refused exact List.mem_cons_self priced sized ?_ tradeable
      intro opening
      rw [decide_eq_false (not_lt.mpr opening)]
      exact .inr rfl
  | true =>
      rw [if_neg (by decide)]
      by_cases some : sz ≠ "0"
      · rw [if_pos some]
        apply Machine.spec_bind
        apply spec_freshCloid bounded₁ idle₁
        intro id
        apply Machine.spec_bind
        apply wp_managedOrder bounded₁ idle₁
        · intro failure value same
          cases same
        · intro q parsed result w' ordered
          have bounded' := bounded₁.ordered above below rfl (most q parsed) ordered
          refine ⟨bounded', fun value same => ?_⟩
          exact spec_checkSweep hl s bounded' (ordered.immediate same rfl) read
      · rw [if_neg some]
        exact spec_checkSweep hl s bounded₁ idle₁ read

theorem spec_settle (exact : ∀ x d, conversion x = some d → (d.value : F) = x)
    (bounded : Bounded lo hi books asset w) (idle : w.working = []) (above : lo ≤ target)
    (below : target ≤ hi) (read : first ∈ books) :
    (machine text).spec (Bounded lo hi books asset)
      (Controller.settle text conversion hl s target first.mid emergency asset.2)
      (fun _ => Settled (Controller.slippage hl) s.hedgeDeadbandUsd target first.mid emergency) w := by
  unfold Controller.settle
  have kept : ∀ desk, Bounded lo hi books asset { w with desk := desk } :=
    fun _ => bounded.of_same rfl rfl rfl rfl
  apply Machine.spec_bind
  apply spec_onDesk_idle idle kept
  intro _ desk
  apply Machine.spec_bind
  apply spec_readPosition (kept desk) idle
  rw [neg_neg]
  by_cases large : emergency = true ∧ |target - w.short| * first.mid ≥ 0.01
  · rw [if_pos large]
    exact spec_sweep hl s exact (kept desk) idle above below read
  · rw [if_neg large]
    apply Machine.spec_bind
    have idle' : ({ w with desk := desk } : Market F).working = [] := idle
    apply spec_onDesk_idle idle' kept
    intro _ desk'
    apply spec_hedgeResidual (kept desk') idle
    intro desk''
    have mem := mem_books bounded read
    refine ⟨idle, ⟨first, mem, _, rfl⟩, fun urgent => .inl ?_⟩
    rw [not_and, not_le] at large
    exact large urgent

theorem spec_trade (exact : ∀ x d, conversion x = some d → (d.value : F) = x)
    (account : Account F) (bounded : Bounded lo hi books asset w) (idle : w.working = [])
    (above : lo ≤ target) (below : target ≤ hi) (read : first ∈ books) :
    (machine text).spec (Bounded lo hi books asset)
      (Controller.trade text conversion hl s user target w.short account first emergency)
      (fun _ w' => Settled (Controller.slippage hl) s.hedgeDeadbandUsd target first.mid emergency w' ∧
        Bounded lo hi books asset w') w := by
  have mem := mem_books bounded read
  obtain rfl := bounded.asset
  unfold Controller.trade
  apply Machine.spec_bind
  apply spec_clock bounded idle
  intro now
  apply Machine.spec_bind
  apply Machine.spec_ofExcept bounded
  intro _ _
  by_cases small : |target - w.short| * first.mid <
      if target = 0 ∨ emergency = true then 0.01 else s.hedgeDeadbandUsd
  · rw [if_pos small]
    apply spec_hedgeResidual bounded idle
    intro desk
    refine ⟨⟨idle, ⟨first, mem, _, rfl⟩, fun urgent => .inl ?_⟩, bounded.of_same rfl rfl rfl rfl⟩
    rw [if_pos (Or.inr urgent)] at small
    exact small
  · rw [if_neg small]
    apply Machine.spec_bind
    apply Machine.spec_ofExcept bounded
    intro _ _
    apply Machine.spec_bind
    apply spec_readAsset bounded idle
    apply Machine.spec_bind
    apply Machine.spec_ofExcept bounded
    intro size sized
    apply Machine.spec_bind
    apply spec_freshCloid bounded idle
    intro cloid
    apply Machine.spec_bind
    apply Machine.spec_ofExcept bounded
    intro px priced
    apply Machine.spec_bind
    apply Machine.spec_ofExcept bounded
    intro worthwhile tradeable
    rw [mapError_eq_ok] at priced sized tradeable
    cases worthwhile with
    | false =>
        rw [if_pos rfl]
        apply spec_hedgeResidual bounded idle
        intro desk
        refine ⟨⟨idle, ⟨first, mem, _, rfl⟩, fun _ => .inr (.inr ?_)⟩,
          bounded.of_same rfl rfl rfl rfl⟩
        refine untradeable_of_refused exact mem priced sized ?_ tradeable
        intro opening
        rw [decide_eq_false (not_lt.mpr opening)]
        exact .inl rfl
    | true =>
        rw [if_neg (by decide)]
        have most : ∀ q, text.parse size = some q → (q.value : F) ≤ |target - w.short| := by
          intro q parsed
          obtain ⟨q', parsed', -, below, -⟩ := Orders.quantity_le exact sized
          rw [parsed] at parsed'
          cases parsed'
          exact below
        apply Machine.spec_bind
        apply Machine.spec_mono (spec_passive bounded idle above below rfl most)
        rintro _ w' - ⟨bounded', idle'⟩
        apply Machine.spec_mono (spec_settle hl s exact bounded' idle' above below read)
        intro _ w'' bounded'' settled
        exact ⟨settled, bounded''⟩

/-- Nothing was traded yet, or the first book fixed the effective target between which and the
start everything stays. -/
def Between (start : Market F) (target : F) (w : Market F) : Prop :=
  w.short = start.short ∧ w.working = [] ∧ w.books = start.books ∨
    ∃ first later, w.books = later ++ first :: start.books ∧
      Within (min start.short (effectiveTarget target first))
        (max start.short (effectiveTarget target first)) w

omit [FloorRing F] in
theorem Bounded.between {start : Market F}
    (bounded : Bounded (min start.short (effectiveTarget target first))
      (max start.short (effectiveTarget target first)) (first :: start.books) asset w) :
    Between start target w := by
  obtain ⟨later, read⟩ := bounded.books
  exact .inr ⟨first, later, read, bounded.within⟩

theorem spec_hedge (exact : ∀ x d, conversion x = some d → (d.value : F) = x) {start : Market F}
    (idle : start.working = []) :
    (machine text).spec (Between start target)
      (Controller.hedge text conversion hl s user target emergency)
      (fun _ w => ∃ first later, w.books = later ++ first :: start.books ∧
        w.asset = start.asset ∧ Settled (Controller.slippage hl) s.hedgeDeadbandUsd
          (effectiveTarget target first) first.mid emergency w) start := by
  have starts : Between start target start := .inl ⟨rfl, idle, rfl⟩
  unfold Controller.hedge
  apply Machine.spec_bind
  apply Machine.spec_ofExcept starts
  intro _ _
  apply Machine.spec_bind
  apply spec_readAccount starts idle
  intro account position
  apply Machine.spec_bind
  apply Machine.spec_ofExcept starts
  intro _ _
  apply Machine.spec_bind
  apply spec_readBook starts idle
  intro first
  have within : Within (min start.short (effectiveTarget target first))
      (max start.short (effectiveTarget target first))
      { start with books := first :: start.books } :=
    .of_idle idle (min_le_left _ _) (le_max_left _ _)
  have bounded : Bounded (min start.short (effectiveTarget target first))
      (max start.short (effectiveTarget target first)) (first :: start.books) start.asset
      { start with books := first :: start.books } :=
    ⟨within, ⟨[], rfl⟩, rfl⟩
  refine ⟨bounded.between, ?_⟩
  rw [position, neg_neg]
  have traded : (machine text).spec _ (Controller.trade text conversion hl s user
      (effectiveTarget target first) start.short account first emergency) _
      { start with books := first :: start.books } :=
    spec_trade hl s exact account bounded idle (min_le_right _ _) (le_max_right _ _)
      List.mem_cons_self
  refine Machine.wp_mono_inv (Machine.spec_mono traded ?_) fun w => Bounded.between
  rintro _ w - ⟨settled, bounded'⟩
  obtain ⟨later, read⟩ := bounded'.books
  exact ⟨first, later, read, bounded'.asset, settled⟩

end Hedge

end Outcome

end Programs

/-- From a market where no order works, whatever the exchange fills and replies and wherever the
program stops, the short position and everything which may still fill stay between the start and
the effective target. Where an emergency hedge succeeds, what remains is worthless, within the
deadband or no order; every hedge which succeeds records what remains. -/
theorem hedge_never_overshoots [FloorRing F] {text : Decimal.Text} {conversion : F → Option Decimal}
    (exact : ∀ x d, conversion x = some d → (d.value : F) = x) (hl : HyperliquidConfig)
    (s : StrategyConfig F) (user : String) (target : F) (emergency : Bool)
    (inputs : List (MarketInput F)) {start after : Market F} {outcome : Outcome Failure Unit}
    (idle : start.working = [])
    (ran : (machine text).run (Controller.hedge text conversion hl s user target emergency) inputs
      start = (outcome, after)) :
    (after.short = start.short ∧ after.working = [] ∨
      ∃ first later, after.books = later ++ first :: start.books ∧
        after.short ∈ Set.uIcc start.short (effectiveTarget target first) ∧
        Within (min start.short (effectiveTarget target first))
          (max start.short (effectiveTarget target first)) after) ∧
    (outcome = .finished (.ok ()) →
      ∃ first later, after.books = later ++ first :: start.books ∧
        Settled (Controller.slippage hl) s.hedgeDeadbandUsd (effectiveTarget target first) first.mid
          emergency after) := by
  obtain ⟨between, finished⟩ := Machine.spec_sound (spec_hedge hl s exact idle) inputs
  rw [ran] at between finished
  refine ⟨?_, fun succeeded => ?_⟩
  · rcases between with ⟨unmoved, none, -⟩ | ⟨first, later, read, within⟩
    · exact .inl ⟨unmoved, none⟩
    · exact .inr ⟨first, later, read, within.short_mem, within⟩
  · obtain ⟨first, later, read, -, settled⟩ := finished () succeeded
    exact ⟨first, later, read, settled⟩

end LpMaker.Hyperliquid

namespace LpMaker.Shipped

open Hyperliquid Market

/-- Moments at which half of a passive order fills while it is being cancelled. -/
def passiveMoment : MarketInput ℚ where
  fills _ := 1 / 1000
  ends _ := false
  desk := ⟨1000, .ok (.obj [("status", .str "order"), ("order", .obj [("status", .str "canceled"),
    ("order", .obj [("oid", .nat 7), ("cloid", .null)])])]), true, .null⟩
  account := ⟨0, 100⟩
  book := ⟨3000, 3001, 1000⟩
  cloid := "0x00000000000000000000000000000001"
  record := ⟨"", none, "0x1", true, 0, 0, .null, "", false, .null⟩
  executed := 1 / 500
  placement := .resting 7

/-- Moments at which an immediate order fills. -/
def immediateMoment : MarketInput ℚ :=
  { passiveMoment with
    cloid := "0x00000000000000000000000000000002"
    placement := .filled 8
    executed := 1 }

/-- Nothing is hedged yet. -/
def unhedged : Market ℚ := ⟨⟨.empty, [], .null, .null, [], []⟩, 0, [], [], none, (1, ether)⟩

/-- An emergency hedge of twenty-four dollars with two orders. -/
def emergencyRun : Semantics.Outcome Failure Unit × Market ℚ :=
  (machine Decimal.plain).run (Controller.hedge Decimal.plain eightPlaces hyperliquid
    robinhood.strategy "0x1" (1 / 125) true)
    (List.replicate 12 passiveMoment ++ List.replicate 20 immediateMoment) unhedged

theorem emergency_hedge_settles :
    (emergencyRun.2.short = 0 ∧ emergencyRun.2.working = [] ∨
      ∃ first later, emergencyRun.2.books = later ++ [first] ∧
        emergencyRun.2.short ∈ Set.uIcc 0 (effectiveTarget (1 / 125) first) ∧
        Within (min 0 (effectiveTarget (1 / 125) first)) (max 0 (effectiveTarget (1 / 125) first))
          emergencyRun.2) ∧
    emergencyRun.2.short = 1 / 125 ∧
    ∃ first later, emergencyRun.2.books = later ++ [first] ∧
      Settled (Controller.slippage hyperliquid) robinhood.strategy.hedgeDeadbandUsd
        (effectiveTarget (1 / 125) first) first.mid true emergencyRun.2 := by
  obtain ⟨between, settled⟩ := hedge_never_overshoots eightPlaces_exact hyperliquid
    robinhood.strategy "0x1" (1 / 125) true
    (List.replicate 12 passiveMoment ++ List.replicate 20 immediateMoment)
    (rfl : unhedged.working = []) (rfl : _ = (emergencyRun.1, emergencyRun.2))
  have succeeded : emergencyRun.1 = .finished (.ok ()) := by decide +kernel
  have reached : emergencyRun.2.short = 1 / 125 := by decide +kernel
  exact ⟨between, reached, settled succeeded⟩

end LpMaker.Shipped
