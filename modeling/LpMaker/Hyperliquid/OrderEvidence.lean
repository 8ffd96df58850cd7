import Mathlib
import LpMaker.Hyperliquid.OrderRecovery

/-!
# Order resolution is evidence based

Every change which `resolve` makes to a record rests on an answer of the exchange which
describes that very order. Nothing is concluded from an order being absent.
-/

namespace LpMaker.Hyperliquid

open Semantics Journal Desk

namespace OrderRecovery

section Evidence

/-- A response which the exchange gave, or an open order of a list which it gave. -/
inductive Shown (answers : List (Question × Json)) : Json → Prop where
  | answered {query response : Json} : (.orderStatus query, response) ∈ answers →
      Shown answers response
  | listed {open_ row : Json} {rows : List Json} : (.openOrders, open_) ∈ answers →
      open_.asArray = some rows → row ∈ rows → Shown answers (openRow row)

theorem Shown.mono {answers more : List (Question × Json)} {response : Json} (shown : Shown answers response)
    (sub : answers ⊆ more) : Shown more response := by
  cases shown with
  | answered mem => exact .answered (sub mem)
  | listed mem array row => exact .listed (sub mem) array row

/-- The response names this order and says what the record says. -/
structure Confirms (id : String) (response : Json) (order : Order) : Prop where
  describes : describesOrder response
  own : sameCloid (row response) id
  named : order.oid.isSome
  oid : ((row response).field "oid").asNat = order.oid
  status : responseStatus response = some order.status
  terminal : order.terminal = terminalStatus order.status
  kept : order.exchange = response

/-- One shown response settles more about the order `id`, which was not final. -/
inductive Supported (id : String) (answers : List (Question × Json)) (before : Ledger) : Ledger → Prop where
  | intro {order order' : Order} {response : Json} (recorded : before.get id = some order)
      (unsettled : order.terminal = false) (shown : Shown answers response)
      (confirms : Confirms id response order') (agrees : ∀ oid ∈ order.oid, order'.oid = some oid)
      (same : order' = { order with
        oid := order'.oid
        status := order'.status
        terminal := order'.terminal
        observedMs := order'.observedMs
        exchange := order'.exchange }) :
      Supported id answers before (before.set order')

/-- Any number of such changes. -/
abbrev Evidence (id : String) (answers : List (Question × Json)) : Ledger → Ledger → Prop :=
  Relation.ReflTransGen (Supported id answers)

variable {id : String} {answers more : List (Question × Json)} {before after : Ledger} {order : Order}

theorem Evidence.mono (evidence : Evidence id answers before after) (sub : answers ⊆ more) :
    Evidence id more before after := by
  induction evidence with
  | refl => exact .refl
  | tail _ supported inductionHypothesis =>
      obtain ⟨recorded, unsettled, shown, confirms, agrees, same⟩ := supported
      exact inductionHypothesis.tail
        (.intro recorded unsettled (shown.mono sub) confirms agrees same)

theorem Supported.get_other {other : String} (supported : Supported id answers before after)
    (different : other ≠ id) : after.get other = before.get other := by
  obtain @⟨order, order', response, recorded, -, -, -, -, same⟩ := supported
  have cloid : order'.cloid = id := by
    rw [same]
    change order.cloid = id
    exact Ledger.cloid_of_get recorded
  apply Ledger.get_set_other
  rw [cloid]
  exact different

theorem Supported.get (supported : Supported id answers before after) :
    ∃ order order' response, before.get id = some order ∧ after.get id = some order' ∧
      order.terminal = false ∧ Shown answers response ∧ Confirms id response order' ∧
      (∀ oid ∈ order.oid, order'.oid = some oid) ∧ order'.managedHedge = order.managedHedge := by
  obtain @⟨order, order', response, recorded, unsettled, shown, confirms, agrees, same⟩ := supported
  have cloid : order'.cloid = id := by
    rw [same]
    change order.cloid = id
    exact Ledger.cloid_of_get recorded
  have result := Ledger.get_set recorded cloid
  have managed : order'.managedHedge = order.managedHedge := by
    rw [same]
  exact ⟨order, order', response, recorded, result, unsettled, shown, confirms, agrees, managed⟩

/-- Other orders are left alone. -/
theorem Evidence.get_other {other : String} (evidence : Evidence id answers before after)
    (different : other ≠ id) : after.get other = before.get other := by
  induction evidence with
  | refl => rfl
  | tail _ supported inductionHypothesis =>
      rw [supported.get_other different]
      exact inductionHypothesis

/-- A recorded order stays recorded, under its order id and for its owner. -/
theorem Evidence.get (evidence : Evidence id answers before after)
    (recorded : before.get id = some order) :
    ∃ order', after.get id = some order' ∧ (∀ oid ∈ order.oid, order'.oid = some oid) ∧
      order'.managedHedge = order.managedHedge := by
  induction evidence with
  | refl => exact ⟨order, recorded, fun oid mem => mem, rfl⟩
  | tail _ supported inductionHypothesis =>
      obtain ⟨middle, found, kept, managed⟩ := inductionHypothesis
      obtain ⟨middle', order', response, found', result, -, -, -, agrees, managed'⟩ := supported.get
      rw [found] at found'
      cases found'
      refine ⟨order', result, fun oid mem => ?_, managed'.trans managed⟩
      exact agrees oid (kept oid mem)

/-- Nothing changes once the record is final. -/
theorem Evidence.eq_of_terminal (evidence : Evidence id answers before after)
    (recorded : before.get id = some order) (terminal : order.terminal = true) :
    after = before := by
  induction evidence with
  | refl => rfl
  | tail _ supported inductionHypothesis =>
      obtain ⟨middle, order', response, found, -, unsettled, -⟩ := supported.get
      rw [inductionHypothesis, recorded] at found
      cases found
      rw [terminal] at unsettled
      cases unsettled

/-- A record is the old one, or a shown response confirms it. -/
theorem Evidence.confirmed (evidence : Evidence id answers before after)
    (recorded : after.get id = some order) :
    before.get id = some order ∨ ∃ response, Shown answers response ∧ Confirms id response order := by
  cases evidence with
  | refl => exact .inl recorded
  | tail _ supported =>
      obtain ⟨middle, order', response, -, found, -, shown, confirms, -⟩ := supported.get
      rw [recorded] at found
      cases found
      exact .inr ⟨response, shown, confirms⟩

end Evidence

end OrderRecovery

namespace Journal

section Observed

variable {now : Nat} {id : String} {response : Json} {ledger next : Ledger} {order : Order}

/-- What a response which describes an order does to its record. -/
theorem observeChange_eq_ok (recorded : ledger.get id = some order)
    (describes : describesOrder response) (changed : observeChange now id response ledger = .ok next) :
    ∃ oid status, sameCloid (row response) id ∧
      ((row response).field "oid").asNat = some oid ∧ (∀ old ∈ order.oid, old = oid) ∧
      responseStatus response = some status ∧ (order.terminal = false ∨ order.status = status) ∧
      next = ledger.set { order with
        oid := some oid
        status := status
        terminal := terminalStatus status
        observedMs := now
        exchange := response } := by
  unfold observeChange at changed
  simp only [recorded, if_pos describes, bind_eq_ok, context_eq_ok, ensure_eq_ok, pure_eq_ok,
    Option.some.injEq] at changed
  obtain ⟨_, rfl, ⟨⟩, own, oid, named, ⟨⟩, agrees, status, said, ⟨⟩, regress, rfl⟩ := changed
  exact ⟨oid, status, own, named, agrees, said, regress, rfl⟩

/-- A response under another client id, or with another order id than the recorded one, is
refused. -/
theorem observeChange_ne_ok (recorded : ledger.get id = some order)
    (describes : describesOrder response)
    (other : ¬sameCloid (row response) id ∨
      ∃ oid ∈ order.oid, ((row response).field "oid").asNat ≠ some oid) :
    observeChange now id response ledger ≠ .ok next := by
  intro changed
  obtain ⟨oid, status, own, named, agrees, -⟩ := observeChange_eq_ok recorded describes changed
  rcases other with foreign | ⟨old, mem, different⟩
  · exact foreign own
  · rw [agrees old mem] at different
    exact different named

/-- A response which does not describe the order leaves a known order id and a final status. -/
theorem observeChange_unknown (recorded : ledger.get id = some order)
    (unknown : ¬describesOrder response) (known : order.oid.isSome ∨ order.terminal = true) :
    observeChange now id response ledger = .ok ledger := by
  unfold observeChange
  simp only [recorded, context, if_neg unknown]
  exact if_pos known

theorem observeCheck_eq_ok {u : Unit} (checked : observeCheck response = .ok u) :
    ∃ status, responseStatus response = some status ∧
      (status = "open" ∨ terminalStatus status = true) := by
  unfold observeCheck at checked
  simp only [bind_eq_ok, context_eq_ok, ensure_eq_ok] at checked
  obtain ⟨_, -, status, said, settled⟩ := checked
  exact ⟨status, said, settled⟩

end Observed

end Journal

namespace OrderRecovery

/-- A describing response which `observe` takes confirms the new record. -/
theorem supported_of_observe {now : Nat} {id : String} {answers : List (Question × Json)} {response : Json}
    {ledger next : Ledger} {order : Order} (recorded : ledger.get id = some order)
    (unsettled : order.terminal = false) (shown : Shown answers response)
    (describes : describesOrder response)
    (changed : observeChange now id response ledger = .ok next) :
    Supported id answers ledger next ∧
      ∃ order', next.get id = some order' ∧ Confirms id response order' := by
  obtain ⟨oid, status, own, named, agrees, said, -, rfl⟩ :=
    observeChange_eq_ok recorded describes changed
  have confirms : Confirms id response { order with
      oid := some oid
      status := status
      terminal := terminalStatus status
      observedMs := now
      exchange := response } :=
    { describes := describes, own := own, named := rfl, oid := named, status := said
      terminal := rfl, kept := rfl }
  have supported : Supported id answers ledger (ledger.set _) :=
    .intro recorded unsettled shown confirms
      (fun old mem => congrArg some (agrees old mem).symm) rfl
  refine ⟨supported, _, ?_, confirms⟩
  have cloid := Ledger.cloid_of_get recorded
  exact Ledger.get_set recorded cloid

section Runs

/-- Since the start, the exchange answered `answers`, and every change rests on them. -/
structure Since (id : String) (start : Desk) (answers : List (Question × Json)) (w : Desk) : Prop where
  asked : w.answers = answers ++ start.answers
  evidence : Evidence id answers start.ledger w.ledger
  cancelled : w.cancelled = start.cancelled

/-- The answers so far support the ledger. -/
def Grounded (id : String) (start w : Desk) : Prop := ∃ answers, Since id start answers w

variable {id : String} {start w : Desk} {answers : List (Question × Json)} {order : Order} {response : Json}

theorem Since.grounded (since : Since id start answers w) : Grounded id start w := ⟨answers, since⟩

theorem Since.answered (since : Since id start answers w) (answer : Question × Json) :
    Since id start (answer :: answers) { w with answers := answer :: w.answers } where
  asked := congrArg (answer :: ·) since.asked
  evidence := since.evidence.mono (List.subset_cons_self _ _)
  cancelled := since.cancelled

/-- What is known of the order after a response was taken. -/
def Taken (id : String) (start : Desk) (answers : List (Question × Json)) (response : Json) (w : Desk) : Prop :=
  Since id start answers w ∧ ∃ order, w.ledger.get id = some order ∧ Confirms id response order ∧
    (order.status = "open" ∨ order.terminal = true)

theorem spec_observe (since : Since id start answers w) (recorded : w.ledger.get id = some order)
    (unsettled : order.terminal = false) (shown : Shown answers response)
    (describes : describesOrder response) :
    machine.spec (Grounded id start) (observe id response)
      (fun _ => Taken id start answers response) w := by
  unfold observe
  apply Machine.spec_bind
  apply spec_updateOrders since.grounded
  intro now ledger changed
  obtain ⟨supported, order', result, confirms⟩ :=
    supported_of_observe recorded unsettled shown describes changed
  have since' : Since id start answers { w with ledger := ledger } :=
    ⟨since.asked, since.evidence.tail supported, since.cancelled⟩
  refine ⟨since'.grounded, ?_⟩
  apply Machine.spec_bind
  apply spec_record since'.grounded
  apply Machine.spec_ofExcept since'.grounded
  intro _ checked
  obtain ⟨status, said, settled⟩ := observeCheck_eq_ok checked
  have same : order'.status = status := by
    have both := confirms.status
    rw [said] at both
    exact (Option.some.inj both).symm
  refine ⟨since', order', result, confirms, ?_⟩
  rw [confirms.terminal, same]
  exact settled

/-- What the queries found, and what the record says after them. -/
def Queried (id : String) (terminalOnly : Bool) (start : Desk) (asked : Asked) (w : Desk) : Prop :=
  ∃ answers order, Since id start answers w ∧ w.ledger.get id = some order ∧
    match asked with
    | .resolved response => Shown answers response ∧ Confirms id response order ∧
        (order.status = "open" ∨ order.terminal = true) ∧
        (terminalOnly = true → order.terminal = true)
    | .unresolved _ => order.terminal = false

theorem spec_askAll {terminalOnly knownOpen : Bool} {queries : List Json}
    (since : Since id start answers w) (recorded : w.ledger.get id = some order)
    (unsettled : order.terminal = false) :
    machine.spec (Grounded id start) (askAll id terminalOnly queries knownOpen)
      (Queried id terminalOnly start) w := by
  induction queries generalizing knownOpen answers w order with
  | nil =>
      apply Machine.spec_pure since.grounded
      exact ⟨answers, order, since, recorded, unsettled⟩
  | cons query queries inductionHypothesis =>
      unfold askAll
      apply Machine.spec_bind
      apply spec_ask since.grounded
      intro response
      have since' := since.answered (.orderStatus query, response)
      refine ⟨since'.grounded, ?_⟩
      apply Machine.spec_bind
      apply spec_record since'.grounded
      by_cases describes : describesOrder response
      · rw [if_pos describes]
        apply Machine.spec_bind
        have shown : Shown ((.orderStatus query, response) :: answers) response :=
          .answered List.mem_cons_self
        apply Machine.spec_mono (spec_observe since' recorded unsettled shown describes)
        rintro _ w' grounded ⟨since'', order', result, confirms, settled⟩
        by_cases resolved : terminalOnly = false ∨ responseStatus response ≠ some "open"
        · rw [if_pos resolved]
          apply Machine.spec_pure grounded
          refine ⟨_, order', since'', result, shown, confirms, settled, fun final => ?_⟩
          rcases settled with isOpen | terminal
          · rcases resolved with lax | closed
            · rw [final] at lax
              cases lax
            · exact absurd (isOpen ▸ confirms.status) closed
          · exact terminal
        · -- the order is still open, and the next query may know more
          rw [if_neg resolved]
          rw [not_or, not_not] at resolved
          have isOpen : order'.status = "open" := by
            have both := confirms.status
            rw [resolved.2] at both
            exact (Option.some.inj both).symm
          have live : order'.terminal = false := by
            rw [confirms.terminal, isOpen]
            decide
          exact inductionHypothesis since'' result live
      · rw [if_neg describes]
        apply Machine.spec_bind
        apply Machine.spec_ofExcept since'.grounded
        intro _ _
        exact inductionHypothesis since' recorded unsettled

/-- How `resolve` may conclude: by the final record, or by a shown response which confirms it. -/
def Concluded (id : String) (terminalOnly : Bool) (start : Desk) (response : Json) (w : Desk) :
    Prop :=
  ∃ answers order, Since id start answers w ∧ w.ledger.get id = some order ∧
    (terminalOnly = true → order.terminal = true) ∧
    (order.terminal = true ∧ terminalStatus order.status = true ∧
        response = durableTerminal id order ∨
      Shown answers response ∧ Confirms id response order ∧
        (order.status = "open" ∨ order.terminal = true))

theorem mem_rows_of_found {rows found : List Json} {row : Json} {rest : List Json}
    {oid : Option Nat} (same : rows.filter (isOurs id oid) = found) (first : found = row :: rest) :
    row ∈ rows := by
  have mem : row ∈ rows.filter (isOurs id oid) := by
    rw [same, first]
    exact List.mem_cons_self
  exact List.mem_of_mem_filter mem

theorem spec_searchOpen {terminalOnly : Bool} {oid : Option Nat}
    (since : Since id start answers w) (recorded : w.ledger.get id = some order)
    (unsettled : order.terminal = false) :
    machine.spec (Grounded id start) (searchOpen id terminalOnly oid)
      (fun found w => ∀ response ∈ found, Concluded id terminalOnly start response w) w := by
  unfold searchOpen
  apply Machine.spec_bind
  apply spec_ask since.grounded
  intro open_
  have since' := since.answered (.openOrders, open_)
  refine ⟨since'.grounded, ?_⟩
  apply Machine.spec_bind
  apply spec_record since'.grounded
  apply Machine.spec_bind
  apply Machine.spec_ofExcept since'.grounded
  intro rows array
  rw [context_eq_ok] at array
  apply Machine.spec_bind
  apply Machine.spec_ofExcept since'.grounded
  intro _ _
  cases found : rows.filter (isOurs id oid) with
  | nil =>
      apply Machine.spec_pure since'.grounded
      intro response none
      cases none
  | cons row rest =>
      have mem : row ∈ rows := mem_rows_of_found found rfl
      have shown : Shown ((.openOrders, open_) :: answers) (openRow row) :=
        .listed List.mem_cons_self array mem
      have describes : describesOrder (openRow row) := rfl
      apply Machine.spec_bind
      apply Machine.spec_mono (spec_observe since' recorded unsettled shown describes)
      rintro _ w' grounded ⟨since'', order', result, confirms, settled⟩
      apply Machine.spec_pure grounded
      cases terminalOnly with
      | true =>
          intro response none
          cases none
      | false =>
          intro response same
          cases same
          exact ⟨_, order', since'', result, nofun, .inr ⟨shown, confirms, settled⟩⟩

theorem spec_attempt {user : String} {terminalOnly : Bool} (since : Since id start answers w) :
    machine.spec (Grounded id start) (attempt user id terminalOnly)
      (fun found w => ∀ response ∈ found, Concluded id terminalOnly start response w) w := by
  unfold attempt
  apply Machine.spec_bind
  apply spec_readOrders since.grounded
  apply Machine.spec_bind
  apply Machine.spec_ofExcept since.grounded
  intro order recorded
  rw [context_eq_ok] at recorded
  apply Machine.spec_bind
  apply Machine.spec_ofExcept since.grounded
  intro _ _
  split_ifs with terminal
  · apply Machine.spec_bind
    apply Machine.spec_ofExcept since.grounded
    intro _ valid
    rw [ensure_eq_ok] at valid
    apply Machine.spec_pure since.grounded
    intro response same
    cases same
    exact ⟨answers, order, since, recorded, fun _ => terminal, .inl ⟨terminal, valid, rfl⟩⟩
  · apply Machine.spec_bind
    have unsettled : order.terminal = false := Bool.eq_false_iff.mpr terminal
    apply Machine.spec_mono (spec_askAll since recorded unsettled)
    rintro asked w' grounded ⟨answers', order', since', result, known⟩
    cases asked with
    | resolved response =>
        apply Machine.spec_pure grounded
        intro response same
        cases same
        obtain ⟨shown, confirms, settled, final⟩ := known
        exact ⟨answers', order', since', result, final, .inr ⟨shown, confirms, settled⟩⟩
    | unresolved knownOpen =>
        cases knownOpen with
        | true =>
            apply Machine.spec_pure grounded
            intro response none
            cases none
        | false => exact spec_searchOpen since' result known

theorem spec_attempts {user : String} {terminalOnly : Bool} {n : Nat}
    (grounded : Grounded id start w) :
    machine.spec (Grounded id start) (attempts user id terminalOnly n)
      (Concluded id terminalOnly start) w := by
  induction n generalizing w with
  | zero =>
      apply Machine.spec_bind
      apply spec_record grounded
      exact Machine.spec_throw grounded
  | succ n inductionHypothesis =>
      obtain ⟨answers, since⟩ := grounded
      apply Machine.spec_bind
      apply Machine.spec_mono (spec_attempt since)
      intro found w' grounded' concluded
      cases found with
      | none => exact inductionHypothesis grounded'
      | some response => exact Machine.spec_pure grounded' (concluded response rfl)

theorem spec_resolve (user id : String) (terminalOnly : Bool) (start : Desk) :
    machine.spec (Grounded id start) (resolve user id terminalOnly)
      (Concluded id terminalOnly start) start :=
  spec_attempts ⟨[], rfl, .refl, rfl⟩

/-- A response which may not change the record leaves the ledger as it is. -/
theorem observe_ledger
    (refused : ∀ now ledger, observeChange now id response w.ledger = .ok ledger →
      ledger = w.ledger) (inputs : List DeskInput) :
    (machine.run (observe id response) inputs w).2.ledger = w.ledger := by
  have spec : machine.spec (fun w' => w'.ledger = w.ledger) (observe id response)
      (fun _ _ => True) w := by
    unfold observe
    apply Machine.spec_bind
    refine spec_updateOrders ?starts fun now ledger changed => ?changed
    case starts => rfl
    case changed =>
      have kept : ledger = w.ledger := refused now ledger changed
      refine ⟨kept, ?_⟩
      apply Machine.spec_bind
      refine spec_record kept ?_
      exact Machine.spec_ofExcept kept fun _ _ => trivial
  exact (Machine.spec_sound spec inputs).1

/-- An unknown reply about a known order, or a response about another order. -/
def Refused (id : String) (response : Json) (order : Order) : Prop :=
  ¬describesOrder response ∧ (order.oid.isSome ∨ order.terminal = true) ∨
    describesOrder response ∧ (¬sameCloid (row response) id ∨
      ∃ oid ∈ order.oid, ((row response).field "oid").asNat ≠ some oid)

theorem observe_refused (recorded : w.ledger.get id = some order)
    (refused : Refused id response order) (inputs : List DeskInput) :
    (machine.run (observe id response) inputs w).2.ledger = w.ledger := by
  apply observe_ledger
  intro now ledger changed
  rcases refused with ⟨unknown, known⟩ | ⟨describes, other⟩
  · rw [observeChange_unknown recorded unknown known] at changed
    cases changed
    rfl
  · exact absurd changed (observeChange_ne_ok recorded describes other)

end Runs

/-- However the exchange answers and wherever the run stops, every change of the ledger rests on
an answer which describes the order under its own ids, what was known is kept, a record becomes
final only by such an answer, and so does the conclusion; an unknown reply about a known order
and a response about another order leave the ledger as it is. -/
theorem resolve_evidence_based (user id : String) (terminalOnly : Bool) (inputs : List DeskInput)
    (start : Desk) :
    (∃ answers,
      (machine.run (resolve user id terminalOnly) inputs start).2.answers =
        answers ++ start.answers ∧
      Evidence id answers start.ledger
        (machine.run (resolve user id terminalOnly) inputs start).2.ledger ∧
      (∀ order, start.ledger.get id = some order → ∃ order',
        (machine.run (resolve user id terminalOnly) inputs start).2.ledger.get id = some order' ∧
        (∀ oid ∈ order.oid, order'.oid = some oid) ∧ (order.terminal = true → order' = order)) ∧
      (∀ order,
        (machine.run (resolve user id terminalOnly) inputs start).2.ledger.get id = some order →
        start.ledger.get id = some order ∨
          ∃ response, Shown answers response ∧ Confirms id response order) ∧
      ∀ response,
        (machine.run (resolve user id terminalOnly) inputs start).1 = .finished (.ok response) →
        ∃ order,
          (machine.run (resolve user id terminalOnly) inputs start).2.ledger.get id = some order ∧
          (terminalOnly = true → order.terminal = true) ∧
          (order.terminal = true ∧ response = durableTerminal id order ∨
            Shown answers response ∧ Confirms id response order)) ∧
    ∀ (w : Desk) (order : Order) (response : Json), w.ledger.get id = some order →
      Refused id response order → ∀ inputs,
        (machine.run (observe id response) inputs w).2.ledger = w.ledger := by
  refine ⟨?_, fun w order response recorded refused inputs =>
    observe_refused recorded refused inputs⟩
  obtain ⟨⟨answers, since⟩, concluded⟩ :=
    Machine.spec_sound (spec_resolve user id terminalOnly start) inputs
  refine ⟨answers, since.asked, since.evidence, ?_, ?_, ?_⟩
  · intro order recorded
    obtain ⟨order', result, kept, -⟩ := since.evidence.get recorded
    refine ⟨order', result, kept, fun terminal => ?_⟩
    rw [since.evidence.eq_of_terminal recorded terminal, recorded] at result
    exact (Option.some.inj result).symm
  · intro order recorded
    exact since.evidence.confirmed recorded
  · intro response finished
    obtain ⟨answers', order, since', recorded, final, grounds⟩ := concluded response finished
    have same : answers' = answers := List.append_cancel_right (since'.asked.symm.trans since.asked)
    subst same
    refine ⟨order, recorded, final, ?_⟩
    rcases grounds with ⟨terminal, -, durable⟩ | ⟨shown, confirms, -⟩
    · exact .inl ⟨terminal, durable⟩
    · exact .inr ⟨shown, confirms⟩

end OrderRecovery

end LpMaker.Hyperliquid
