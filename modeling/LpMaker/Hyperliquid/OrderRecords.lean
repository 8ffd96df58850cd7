import LpMaker.Hyperliquid.Acknowledgement
import LpMaker.Hyperliquid.Dispatch
import LpMaker.Hyperliquid.SyncPostcondition

/-!
# The records of orders

The ledger and the archive together hold what is known of every order. Whatever a program does to
them, a record of a sent order keeps what was sent, and only a recorded answer of the exchange
changes what it says.
-/

namespace LpMaker.Hyperliquid

open Semantics Journal Dispatch

/-- The exchange said something about the order itself. -/
def Order.Answered (o : Order) : Prop := o.oid.isSome ∨ o.status = "rejected"

/-- The order was given up before it was sent. -/
def Order.Unsent (o : Order) : Prop := o.oid = none ∧ o.status = "not_submitted"

/-- A record of the ledger or of the archive. -/
def Desk.Holds (d : Desk) (o : Order) : Prop := o ∈ d.ledger.orders ∨ o ∈ d.archive

/-- A later record of the same order. -/
structure Succeeds (o o' : Order) : Prop where
  cloid : o'.cloid = o.cloid
  wire : o'.wire = o.wire
  user : o'.user = o.user
  submittedMs : o'.submittedMs = o.submittedMs
  answered : o' = o ∨ o'.Answered

/-- A sent order keeps its record, and no order is given up. -/
structure Advances (before after : Order → Prop) : Prop where
  kept : ∀ o, before o → o.wire ≠ .null → ∃ o', after o' ∧ Succeeds o o'
  unsent : ∀ o', after o' → o'.Unsent → ∃ o, before o ∧ o.Unsent ∧ o.cloid = o'.cloid

section Advances

variable {before middle after archive : Order → Prop} {o o' o'' : Order}

theorem Succeeds.refl (o : Order) : Succeeds o o := ⟨rfl, rfl, rfl, rfl, .inl rfl⟩

theorem Succeeds.trans (first : Succeeds o o') (second : Succeeds o' o'') : Succeeds o o'' where
  cloid := second.cloid.trans first.cloid
  wire := second.wire.trans first.wire
  user := second.user.trans first.user
  submittedMs := second.submittedMs.trans first.submittedMs
  answered := by
    rcases second.answered with rfl | answered
    · exact first.answered
    · exact .inr answered

theorem Advances.of_iff (same : ∀ o, after o ↔ before o) : Advances before after where
  kept := fun o mem _ => ⟨o, (same o).mpr mem, .refl o⟩
  unsent := fun o mem unsent => ⟨o, (same o).mp mem, unsent, rfl⟩

theorem Advances.refl (before : Order → Prop) : Advances before before := .of_iff fun _ => Iff.rfl

theorem Advances.trans (first : Advances before middle) (second : Advances middle after) :
    Advances before after where
  kept := by
    intro o mem sent
    obtain ⟨o', mem', succeeds⟩ := first.kept o mem sent
    obtain ⟨o'', mem'', succeeds'⟩ := second.kept o' mem' (succeeds.wire ▸ sent)
    exact ⟨o'', mem'', succeeds.trans succeeds'⟩
  unsent := by
    intro o'' mem unsent
    obtain ⟨o', mem', unsent', same⟩ := second.unsent o'' mem unsent
    obtain ⟨o, mem'', unsent'', same'⟩ := first.unsent o' mem' unsent'
    exact ⟨o, mem'', unsent'', same'.trans same⟩

/-- The archive stays as it is. -/
theorem Advances.or (advances : Advances before after) :
    Advances (fun o => before o ∨ archive o) (fun o => after o ∨ archive o) where
  kept := by
    rintro o (mem | mem) sent
    · obtain ⟨o', mem', succeeds⟩ := advances.kept o mem sent
      exact ⟨o', .inl mem', succeeds⟩
    · exact ⟨o, .inr mem, .refl o⟩
  unsent := by
    rintro o' (mem | mem) unsent
    · obtain ⟨o, mem', unsent', same⟩ := advances.unsent o' mem unsent
      exact ⟨o, .inl mem', unsent', same⟩
    · exact ⟨o', .inr mem, unsent, rfl⟩

end Advances

namespace Ledger

variable {ledger : Ledger} {order old o : Order} {id : String}

/-- The records of a ledger. -/
abbrev Records (ledger : Ledger) (o : Order) : Prop := o ∈ ledger.orders

theorem mem_iff_get : o ∈ ledger.orders ↔ ledger.get o.cloid = some o :=
  ⟨get_of_mem, mem_of_get⟩

theorem mem_set (stored : ledger.get order.cloid = some old) :
    o ∈ (ledger.set order).orders ↔ o = order ∨ o ∈ ledger.orders ∧ o.cloid ≠ order.cloid := by
  rw [mem_iff_get, mem_iff_get]
  by_cases same : o.cloid = order.cloid
  · rw [same, get_set_same stored]
    simp [eq_comm]
  · rw [get_set_other same]
    have different : o ≠ order := fun equal => same (equal ▸ rfl)
    simp [same, different]

theorem mem_orInsert :
    o ∈ (ledger.orInsert order).orders ↔
      o ∈ ledger.orders ∨ ledger.get order.cloid = none ∧ o = order := by
  unfold orInsert
  split_ifs with fresh
  · change o ∈ ledger.orders ++ [order] ↔ _
    simp [fresh]
  · simp [fresh]

theorem get_orInsert_same (fresh : ledger.get order.cloid = none) :
    (ledger.orInsert order).get order.cloid = some order := by
  unfold orInsert
  rw [dif_pos fresh]
  exact get_insert_same fresh

theorem get_orInsert_other (different : id ≠ order.cloid) :
    (ledger.orInsert order).get id = ledger.get id := by
  unfold orInsert
  split_ifs with fresh
  · exact get_insert_other fresh different
  · rfl

theorem mem_erase : o ∈ (ledger.erase id).orders ↔ o ∈ ledger.orders ∧ o.cloid ≠ id := by
  unfold erase
  simp

theorem advances_set (stored : ledger.get order.cloid = some old)
    (succeeds : old.wire ≠ .null → Succeeds old order) (unsent : order.Unsent → old.Unsent) :
    Advances ledger.Records (ledger.set order).Records where
  kept := by
    intro o mem sent
    by_cases same : o.cloid = order.cloid
    · obtain rfl : old = o := by
        have found := get_of_mem mem
        rw [same, stored] at found
        exact Option.some.inj found
      exact ⟨order, (mem_set stored).mpr (.inl rfl), succeeds sent⟩
    · exact ⟨o, (mem_set stored).mpr (.inr ⟨mem, same⟩), .refl o⟩
  unsent := by
    intro o mem given
    rcases (mem_set stored).mp mem with rfl | ⟨mem, -⟩
    · exact ⟨old, mem_of_get stored, unsent given, cloid_of_get stored⟩
    · exact ⟨o, mem, given, rfl⟩

theorem advances_orInsert (sent : ¬order.Unsent) :
    Advances ledger.Records (ledger.orInsert order).Records where
  kept := fun o mem _ => ⟨o, mem_orInsert.mpr (.inl mem), .refl o⟩
  unsent := by
    intro o mem given
    rcases mem_orInsert.mp mem with mem | ⟨-, rfl⟩
    · exact ⟨o, mem, given, rfl⟩
    · exact absurd given sent

end Ledger

open Ledger

/-- What a program on the stored files leaves of the records, while one operation is pending. -/
structure Moves (start d : Desk) : Prop where
  records : Advances start.Holds d.Holds
  pending : d.pending = start.pending

section Moves

variable {start d d' : Desk} {ledger : Ledger}

theorem Moves.refl (d : Desk) : Moves d d := ⟨.refl _, rfl⟩

theorem Moves.trans (first : Moves start d) (second : Moves d d') : Moves start d' :=
  ⟨first.records.trans second.records, second.pending.trans first.pending⟩

theorem Moves.of_holds (moves : Moves start d) (same : ∀ o, d'.Holds o ↔ d.Holds o)
    (pending : d'.pending = d.pending) : Moves start d' :=
  moves.trans ⟨.of_iff same, pending⟩

theorem Moves.of_ledger (moves : Moves start d)
    (advances : Advances d.ledger.Records ledger.Records) :
    Moves start { d with ledger := ledger } :=
  moves.trans ⟨advances.or, rfl⟩

end Moves

namespace OrderRecovery

variable {id user : String} {answers : List (Question × Json)} {before after : Ledger}
  {terminalOnly : Bool} {d : Desk}

theorem Supported.advances (supported : Supported id answers before after) :
    Advances before.Records after.Records := by
  obtain @⟨order, order', response, recorded, unsettled, shown, confirms, agrees, same⟩ := supported
  have cloid : order'.cloid = order.cloid := by rw [same]
  have stored : before.get order'.cloid = some order := by
    rw [cloid, cloid_of_get recorded, recorded]
  have fields : Succeeds order order' := by
    refine ⟨cloid, ?_, ?_, ?_, .inr (.inl confirms.named)⟩
    · rw [same]
    · rw [same]
    · rw [same]
  refine advances_set stored (fun _ => fields) fun unsent => ?_
  have named := confirms.named
  rw [unsent.1] at named
  cases named

theorem Evidence.advances (evidence : Evidence id answers before after) :
    Advances before.Records after.Records := by
  induction evidence with
  | refl => exact .refl _
  | tail _ supported inductionHypothesis => exact inductionHypothesis.trans supported.advances

section Quiet

/-- Operations which change neither the archive nor the pending file. -/
def Quiet : DeskOp → Prop
  | .readOrders | .updateOrders _ | .record | .ask _ => True
  | _ => False

theorem uses_observe (response : Json) : (observe id response).uses Quiet :=
  Program.uses_bind (Program.uses_call.mpr trivial) fun _ =>
    Program.uses_bind (Program.uses_call.mpr trivial) fun _ => Program.uses_ofExcept _

theorem uses_askAll (queries : List Json) (knownOpen : Bool) :
    (askAll id terminalOnly queries knownOpen).uses Quiet := by
  induction queries generalizing knownOpen with
  | nil => exact Program.uses_pure _
  | cons query queries inductionHypothesis =>
      apply Program.uses_bind (Program.uses_call.mpr trivial)
      intro response
      apply Program.uses_bind (Program.uses_call.mpr trivial)
      intro _
      by_cases describes : describesOrder response
      · rw [if_pos describes]
        apply Program.uses_bind (uses_observe response)
        intro _
        split_ifs
        · exact Program.uses_pure _
        · exact inductionHypothesis true
      · rw [if_neg describes]
        exact Program.uses_bind (Program.uses_ofExcept _) fun _ => inductionHypothesis knownOpen

theorem uses_searchOpen (oid : Option Nat) : (searchOpen id terminalOnly oid).uses Quiet := by
  apply Program.uses_bind (Program.uses_call.mpr trivial)
  intro open_
  apply Program.uses_bind (Program.uses_call.mpr trivial)
  intro _
  apply Program.uses_bind (Program.uses_ofExcept _)
  intro rows
  apply Program.uses_bind (Program.uses_ofExcept _)
  intro _
  cases rows.filter (isOurs id oid) with
  | nil => exact Program.uses_pure _
  | cons row rest => exact Program.uses_bind (uses_observe _) fun _ => Program.uses_pure _

theorem uses_attempt : (attempt user id terminalOnly).uses Quiet := by
  apply Program.uses_bind (Program.uses_call.mpr trivial)
  intro ledger
  apply Program.uses_bind (Program.uses_ofExcept _)
  intro order
  apply Program.uses_bind (Program.uses_ofExcept _)
  intro _
  split_ifs
  · exact Program.uses_bind (Program.uses_ofExcept _) fun _ => Program.uses_pure _
  · apply Program.uses_bind (uses_askAll _ _)
    intro asked
    cases asked with
    | resolved response => exact Program.uses_pure _
    | unresolved knownOpen =>
        cases knownOpen with
        | true => exact Program.uses_pure _
        | false => exact uses_searchOpen _

theorem uses_resolve : (resolve user id terminalOnly).uses Quiet := by
  unfold resolve
  generalize 5 = n
  induction n with
  | zero => exact Program.uses_bind (Program.uses_call.mpr trivial) fun _ => trivial
  | succ n inductionHypothesis =>
      apply Program.uses_bind uses_attempt
      intro found
      cases found with
      | none => exact inductionHypothesis
      | some response => exact Program.uses_pure _

theorem write_files {input : DeskInput} {written w : Desk} (archive : written.archive = w.archive)
    (pending : written.pending = w.pending) :
    (Desk.write input written w).2.archive = w.archive ∧
      (Desk.write input written w).2.pending = w.pending := by
  unfold Desk.write
  cases input.reply with
  | ok _ => exact ⟨archive, pending⟩
  | error _ =>
      dsimp only
      split_ifs
      · exact ⟨archive, pending⟩
      · exact ⟨rfl, rfl⟩

theorem quiet_step {op : DeskOp} (quiet : Quiet op) (input : DeskInput) (w : Desk) :
    (Desk.machine.step op input w).2.archive = w.archive ∧
      (Desk.machine.step op input w).2.pending = w.pending := by
  change (Desk.step op input w).2.archive = _ ∧ (Desk.step op input w).2.pending = _
  cases op with
  | readOrders =>
      simp only [Desk.step, Desk.read]
      cases input.reply <;> exact ⟨rfl, rfl⟩
  | updateOrders change =>
      simp only [Desk.step]
      cases change input.nowMs w.ledger with
      | ok ledger => exact write_files rfl rfl
      | error _ => exact ⟨rfl, rfl⟩
  | record => exact write_files rfl rfl
  | ask question =>
      simp only [Desk.step, Desk.ask]
      cases input.reply <;> exact ⟨rfl, rfl⟩
  | archiveOrder _ | readHedgeOrder | writeHedgeOrder _ | readPending | cancel _ => cases quiet

end Quiet

/-- The ledger says about the order what the exchange said, or it was over before. -/
def Settled (id : String) (ledger : Ledger) : Prop :=
  ∀ o, ledger.get id = some o → o.terminal = true ∨ o.Answered

/-- What looking up an order changes. -/
theorem spec_resolve_moves (user id : String) (terminalOnly : Bool) (d : Desk) :
    Desk.machine.spec (Moves d) (resolve user id terminalOnly)
      (fun _ d' => d'.archive = d.archive ∧ Settled id d'.ledger) d := by
  have quiet : Desk.machine.wp (fun d' => d'.archive = d.archive ∧ d'.pending = d.pending)
      (resolve user id terminalOnly)
      (fun _ d' => d'.archive = d.archive ∧ d'.pending = d.pending) d := by
    refine Machine.wp_of_uses Desk.machine (fun op input d' quiet files => ?_) uses_resolve
      ⟨rfl, rfl⟩
    obtain ⟨archive, pending⟩ := quiet_step quiet input d'
    exact ⟨archive.trans files.1, pending.trans files.2⟩
  have both := Machine.spec_and (spec_resolve user id terminalOnly d)
    (Machine.wp_mono quiet fun _ _ _ files (_ : Json) _ => files)
  refine Machine.spec_mono (Machine.wp_mono_inv both ?_) ?_
  · rintro d' ⟨⟨answers, since⟩, archive, pending⟩
    refine ⟨?_, pending⟩
    unfold Desk.Holds
    rw [archive]
    exact since.evidence.advances.or
  · rintro response d' - ⟨⟨answers, order, since, recorded, -, grounds⟩, archive, -⟩
    refine ⟨archive, fun o found => ?_⟩
    rw [recorded] at found
    cases found
    rcases grounds with ⟨terminal, -⟩ | ⟨-, confirms, -⟩
    · exact .inl terminal
    · exact .inr (.inl confirms.named)

end OrderRecovery

open OrderRecovery

namespace Journal

section Programs

variable {start d : Desk} {user : String} {ledger : Ledger}

theorem spec_importLegacy_moves (moves : Moves start d) :
    Desk.machine.spec (Moves start) (importLegacy user) (fun _ _ => True) d := by
  unfold importLegacy
  apply Machine.spec_bind
  apply Desk.spec_readHedgeOrder moves
  split_ifs
  · exact Machine.spec_pure moves trivial
  · apply Machine.spec_bind
    apply Machine.spec_ofExcept moves
    intro id _
    apply Desk.spec_updateOrders moves
    rintro _ ledger ⟨⟩
    refine ⟨moves.of_ledger (advances_orInsert ?_), trivial⟩
    rintro ⟨-, status⟩
    revert status
    change ("legacy_unverified" : String) = "not_submitted" → False
    decide

theorem spec_refreshOrders_moves {orders : List Order} (moves : Moves start d) :
    Desk.machine.spec (Moves start) (refreshOrders user orders) (fun _ _ => True) d := by
  induction orders generalizing d with
  | nil => exact Machine.spec_pure moves trivial
  | cons order orders inductionHypothesis =>
      unfold refreshOrders
      apply Machine.spec_bind
      apply Machine.spec_ofExcept moves
      intro _ _
      split_ifs
      · exact inductionHypothesis moves
      · apply Machine.spec_bind
        refine Machine.spec_mono (Machine.wp_mono_inv
          (spec_resolve_moves user order.cloid false d) fun _ => moves.trans) ?_
        intro _ d' moves' _
        exact inductionHypothesis moves'

theorem spec_refresh_moves (d : Desk) :
    Desk.machine.spec (Moves d) (refresh user) (fun _ _ => True) d := by
  unfold refresh
  apply Machine.spec_bind
  apply Machine.spec_mono (spec_importLegacy_moves (.refl d))
  intro _ d' moves _
  apply Machine.spec_bind
  apply Desk.spec_readOrders moves
  exact spec_refreshOrders_moves moves

/-- A record leaves the ledger only for the archive. -/
theorem spec_archiveAll_moves {removed : List (Nat × String)} (moves : Moves start d)
    (sub : ∀ o ∈ ledger.orders, o ∈ d.ledger.orders)
    (covers : ∀ o ∈ d.ledger.orders, o ∈ ledger.orders ∨ o ∈ d.archive) :
    Desk.machine.spec (Moves start) (archiveAll removed ledger)
      (fun kept d' => Moves start d' ∧ (∀ o ∈ kept.orders, o ∈ d'.ledger.orders) ∧
        ∀ o ∈ d'.ledger.orders, o ∈ kept.orders ∨ o ∈ d'.archive) d := by
  induction removed generalizing d ledger with
  | nil => exact Machine.spec_pure moves ⟨moves, sub, covers⟩
  | cons first rest inductionHypothesis =>
      unfold archiveAll
      apply Machine.spec_bind
      apply Machine.spec_ofExcept moves
      intro order found
      rw [context_eq_ok] at found
      have stored : order ∈ d.ledger.orders := sub order (mem_of_get found)
      have archived : Moves start { d with archive := order :: d.archive } := by
        refine moves.of_holds (fun o => ?_) rfl
        unfold Desk.Holds
        rw [List.mem_cons]
        constructor
        · rintro (mem | rfl | mem)
          · exact .inl mem
          · exact .inl stored
          · exact .inr mem
        · rintro (mem | mem)
          · exact .inl mem
          · exact .inr (.inr mem)
      apply Machine.spec_bind
      apply Desk.spec_archiveOrder moves archived
      refine inductionHypothesis archived (fun o mem => sub o (mem_erase.mp mem).1) fun o mem => ?_
      rcases covers o mem with kept | old
      · by_cases same : o.cloid = first.2
        · have found' := get_of_mem kept
          rw [same, found] at found'
          cases found'
          exact .inr List.mem_cons_self
        · exact .inl (mem_erase.mpr ⟨kept, same⟩)
      · exact .inr (List.mem_cons_of_mem _ old)

theorem spec_compact_moves (keep : Nat) (d : Desk) :
    Desk.machine.spec (Moves d) (compact keep) (fun _ _ => True) d := by
  have moves := Moves.refl d
  unfold compact
  apply Machine.spec_bind
  apply Desk.spec_readHedgeOrder moves
  apply Machine.spec_bind
  apply Desk.spec_readPending moves
  split_ifs
  · apply Machine.spec_bind
    apply Desk.spec_readOrders moves
    apply Machine.spec_bind
    apply Machine.spec_mono (spec_archiveAll_moves moves (fun o mem => mem) fun o mem => .inl mem)
    rintro kept d' moves' ⟨-, sub, covers⟩
    apply Desk.spec_updateOrders moves'
    rintro _ ledger ⟨⟩
    refine ⟨moves'.of_holds (fun o => ?_) rfl, trivial⟩
    constructor
    · rintro (mem | mem)
      · exact .inl (sub o mem)
      · exact .inr mem
    · rintro (mem | mem)
      · exact covers o mem
      · exact .inr mem
  · exact Machine.spec_pure moves trivial

theorem spec_observeOpenOrders_moves (d : Desk) :
    Desk.machine.spec (Moves d) Controller.observeOpenOrders (fun _ _ => True) d := by
  have moves := Moves.refl d
  unfold Controller.observeOpenOrders
  apply Machine.spec_bind
  apply Desk.spec_ask moves
  intro answer
  have asked : Moves d { d with answers := (.openOrders, answer) :: d.answers } :=
    moves.of_holds (fun _ => Iff.rfl) rfl
  refine ⟨asked, ?_⟩
  apply Machine.spec_bind
  apply Desk.spec_record asked
  exact Machine.spec_pure asked trivial

theorem spec_confirmCancelled_moves (id : String) (d : Desk) :
    Desk.machine.spec (Moves d) (Controller.confirmCancelled user id) (fun _ _ => True) d := by
  unfold Controller.confirmCancelled
  apply Machine.spec_bind
  apply Machine.spec_mono (spec_resolve_moves user id true d)
  intro after d' moves _
  exact Machine.spec_ofExcept moves fun _ _ => trivial

end Programs

section Intents

variable {user : String} {nonce now : Nat} {hedge pending : Json} {ledger next : Ledger}
  {wires : List Json} {wire : Json} {ids : List String}

theorem clientId_eq_ok {message id : String} :
    clientId wire message = .ok id ↔ wire.field "c" = .str id := by
  simp [clientId]

theorem not_unsent_prepared {managed : Bool} {id : String} :
    ¬(preparedOrder user nonce managed id wire).Unsent := by
  rintro ⟨-, status⟩
  revert status
  change ("prepared" : String) = "not_submitted" → False
  decide

theorem prepareOne_advances
    (prepared : prepareOne user nonce hedge pending ledger wire = .ok next) :
    Advances ledger.Records next.Records := by
  unfold prepareOne at prepared
  rw [bind_eq_ok] at prepared
  obtain ⟨id, -, prepared⟩ := prepared
  cases found : ledger.get id with
  | none =>
      rw [found] at prepared
      cases prepared
      exact advances_orInsert not_unsent_prepared
  | some old =>
      rw [found] at prepared
      dsimp only at prepared
      split_ifs at prepared with legacy
      · cases prepared
        have stored : ledger.get old.cloid = some old := by rw [cloid_of_get found, found]
        refine advances_set stored (fun sent => ?_) fun unsent => unsent
        exact absurd (of_decide_eq_true legacy.1) sent
      · rw [check_bind_eq_ok] at prepared
        cases prepared.2
        exact .refl _

/-- A change which advances the records at each item advances them. -/
theorem foldlM_advances {α : Type} {change : Ledger → α → Except Failure Ledger}
    (step : ∀ {ledger item next}, change ledger item = .ok next →
      Advances ledger.Records next.Records)
    {items : List α} (changed : items.foldlM change ledger = .ok next) :
    Advances ledger.Records next.Records := by
  induction items generalizing ledger with
  | nil =>
      cases changed
      exact .refl _
  | cons item items inductionHypothesis =>
      rw [List.foldlM_cons, bind_eq_ok] at changed
      obtain ⟨middle, here, later⟩ := changed
      exact (step here).trans (inductionHypothesis later)

/-- A new intent gets a record of its own. -/
theorem prepareOne_new {id : String} (named : wire.field "c" = .str id)
    (fresh : ledger.get id = none) :
    prepareOne user nonce hedge pending ledger wire =
      .ok (ledger.orInsert (preparedOrder user nonce (isHedge hedge pending id) id wire)) := by
  unfold prepareOne
  simp only [clientId_eq_ok.mpr named, bind, Except.bind, fresh]
  rfl

/-- New intents get records of their own, and no other record changes. -/
theorem prepared_new (carries : Carries wires ids) (distinct : ids.Nodup)
    (fresh : ∀ id ∈ ids, ledger.get id = none)
    (prepared : wires.foldlM (prepareOne user nonce hedge pending) ledger = .ok next) :
    (∀ wire ∈ wires, ∃ id managed, wire.field "c" = .str id ∧
      next.get id = some (preparedOrder user nonce managed id wire)) ∧
      ∀ id, id ∉ ids → next.get id = ledger.get id := by
  induction wires generalizing ledger ids with
  | nil =>
      cases prepared
      exact ⟨fun _ mem => absurd mem List.not_mem_nil, fun _ _ => rfl⟩
  | cons wire wires inductionHypothesis =>
      cases ids with
      | nil => cases carries
      | cons id ids =>
          unfold Carries at carries
          rw [List.map_cons, List.map_cons, List.cons.injEq] at carries
          rw [List.nodup_cons] at distinct
          have missing := fresh id List.mem_cons_self
          rw [List.foldlM_cons, prepareOne_new carries.1 missing] at prepared
          have others : ∀ id' ∈ ids, (ledger.orInsert
              (preparedOrder user nonce (isHedge hedge pending id) id wire)).get id' = none := by
            intro id' mem
            rw [get_orInsert_other fun same : id' = id => distinct.1 (same ▸ mem)]
            exact fresh id' (List.mem_cons_of_mem _ mem)
          obtain ⟨each, rest⟩ := inductionHypothesis carries.2 distinct.2 others prepared
          refine ⟨fun taken mem => ?_, fun id' absent => ?_⟩
          · rcases List.mem_cons.mp mem with rfl | mem
            · refine ⟨id, isHedge hedge pending id, carries.1, ?_⟩
              rw [rest id distinct.1]
              exact @get_orInsert_same ledger (preparedOrder user nonce _ id taken) missing
            · exact each taken mem
          · rw [List.mem_cons, not_or] at absent
            rw [rest id' absent.2]
            exact @get_orInsert_other ledger (preparedOrder user nonce _ id wire) id' absent.1

theorem retireOne_eq_ok (retired : retireOne now ledger wire = .ok next) (o : Order) :
    (o ∈ next.orders → o ∈ ledger.orders ∨ wire.field "c" = .str o.cloid) ∧
      (o ∈ ledger.orders → wire.field "c" ≠ .str o.cloid → o ∈ next.orders) := by
  unfold retireOne at retired
  rw [bind_eq_ok] at retired
  obtain ⟨id, named, retired⟩ := retired
  rw [clientId_eq_ok] at named
  cases found : ledger.get id with
  | none =>
      rw [found] at retired
      cases retired
      exact ⟨.inl, fun mem _ => mem⟩
  | some old =>
      rw [found] at retired
      dsimp only at retired
      rw [check_bind_eq_ok] at retired
      cases retired.2
      have cloid := cloid_of_get found
      have stored : ledger.get old.cloid = some old := by rw [cloid, found]
      have members : o ∈ (ledger.set { old with
            status := "not_submitted", terminal := true, observedMs := now }).orders ↔
          o = { old with status := "not_submitted", terminal := true, observedMs := now } ∨
            o ∈ ledger.orders ∧ o.cloid ≠ old.cloid := mem_set stored
      rw [named, members, ← cloid]
      constructor
      · rintro (rfl | ⟨mem, -⟩)
        · exact .inr rfl
        · exact .inl mem
      · intro mem other
        exact .inr ⟨mem, fun same => other (same ▸ rfl)⟩

/-- Only the records of the intents change when they are given up. -/
theorem retired_eq_ok (retired : wires.foldlM (retireOne now) ledger = .ok next) (o : Order) :
    (o ∈ next.orders → o ∈ ledger.orders ∨ ∃ wire ∈ wires, wire.field "c" = .str o.cloid) ∧
      (o ∈ ledger.orders → (∀ wire ∈ wires, wire.field "c" ≠ .str o.cloid) → o ∈ next.orders) := by
  induction wires generalizing ledger with
  | nil =>
      cases retired
      exact ⟨.inl, fun mem _ => mem⟩
  | cons wire wires inductionHypothesis =>
      rw [List.foldlM_cons, bind_eq_ok] at retired
      obtain ⟨middle, here, later⟩ := retired
      obtain ⟨back, forth⟩ := retireOne_eq_ok here o
      obtain ⟨back', forth'⟩ := inductionHypothesis later
      constructor
      · intro mem
        rcases back' mem with mem | ⟨wire', mem, named⟩
        · rcases back mem with mem | named
          · exact .inl mem
          · exact .inr ⟨wire, List.mem_cons_self, named⟩
        · exact .inr ⟨wire', List.mem_cons_of_mem _ mem, named⟩
      · intro mem others
        exact forth' (forth mem (others wire List.mem_cons_self)) fun wire' mem' =>
          others wire' (List.mem_cons_of_mem _ mem')

end Intents

section Acknowledged

variable {now : Nat} {action response ack : Json} {ledger result : Ledger} {intent : Json × Nat}
  {said : String × Bool × Option Nat} {ids : List String} {items : List Json}

theorem answered_of_acknowledgement {order : Order}
    (reads : acknowledgement response ack = .ok said) :
    (Order.acknowledge now ack said order).Answered ∧
      ¬(Order.acknowledge now ack said order).Unsent := by
  unfold acknowledgement at reads
  split_ifs at reads
  · cases reads
    refine ⟨.inr rfl, ?_⟩
    rintro ⟨-, status⟩
    revert status
    change ("rejected" : String) = "not_submitted" → False
    decide
  · split at reads
    · cases reads
      refine ⟨.inl rfl, ?_⟩
      rintro ⟨oid, -⟩
      cases oid
    · split at reads
      · cases reads
        refine ⟨.inl rfl, ?_⟩
        rintro ⟨oid, -⟩
        cases oid
      · cases reads

theorem acknowledgeOne_advances
    (taken : acknowledgeOne now response ledger intent = .ok result) :
    Advances ledger.Records result.Records := by
  obtain ⟨id, order, ack, said, -, found, -, reads, rfl⟩ := acknowledgeOne_eq_ok.mp taken
  have stored : ledger.get order.cloid = some order := by rw [cloid_of_get found, found]
  obtain ⟨answered, sent⟩ := answered_of_acknowledgement reads
  refine advances_set stored (fun _ => ?_) fun unsent => absurd unsent sent
  exact ⟨rfl, rfl, rfl, rfl, .inr answered⟩

/-- Every intent is answered once an acknowledgement is taken. -/
theorem acknowledged_answers (order : isOrder action) (listed : action.field "orders" = .arr items)
    (carries : Carries items ids) (distinct : ids.Nodup)
    (taken : (acknowledged now action response ledger).1 = .ok ()) :
    Advances ledger.Records (acknowledged now action response ledger).2.Records ∧
      ∀ item ∈ items, ∃ o o', item.field "c" = .str o.cloid ∧ ledger.get o.cloid = some o ∧
        (acknowledged now action response ledger).2.get o.cloid = some o' ∧ Succeeds o o' ∧
        o'.Answered := by
  unfold acknowledged at taken ⊢
  rw [if_pos order] at taken ⊢
  have found : intents action "order intents" = .ok items := by
    unfold intents
    rw [listed]
    rfl
  rw [found] at taken ⊢
  dsimp only at taken ⊢
  split_ifs at taken ⊢
  · cases done : items.zipIdx.foldlM (acknowledgeOne now response) ledger with
    | error failure =>
        rw [update_of_error done] at taken
        cases taken
    | ok result =>
        rw [update_of_ok done]
        refine ⟨foldlM_advances acknowledgeOne_advances done, fun item mem => ?_⟩
        obtain ⟨index, here⟩ := List.mem_iff_getElem?.mp mem
        obtain ⟨id, o, ack, said, named, stored, -, reads, after⟩ :=
          (batch_updates carries distinct done).1 (item, index)
            (List.mk_mem_zipIdx_iff_getElem?.mpr here)
        have cloid := cloid_of_get stored
        subst cloid
        obtain ⟨answered, -⟩ := answered_of_acknowledgement reads
        exact ⟨o, _, named, stored, after, ⟨rfl, rfl, rfl, rfl, .inr answered⟩, answered⟩

end Acknowledged

end Journal

end LpMaker.Hyperliquid
