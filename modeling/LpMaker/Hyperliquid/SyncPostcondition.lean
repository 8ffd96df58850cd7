import LpMaker.Hyperliquid.OrderEvidence
import LpMaker.Hyperliquid.OrderSync

/-!
# What order synchronisation leaves

Where `syncOrders` succeeds, no order is open and every record is final. It cancels only orders
which the ledger holds for the hedge, whatever the exchange answers and wherever it stops.
-/

namespace LpMaker.Hyperliquid

open Semantics Journal Desk OrderRecovery

namespace Ledger

variable {ledger : Ledger} {order : Order}

@[simp] theorem mem_values : order ∈ ledger.values ↔ order ∈ ledger.orders :=
  List.mem_mergeSort

end Ledger

namespace Journal

section ManagedOpenOrders

variable {ledger : Ledger} {open_ : Json} {coin : String} {ids : List String}

/-- An open order is matched with an unresolved record of the hedge. -/
theorem managedOpenOrder_eq_ok {row : Json} {id : String}
    (matched : managedOpenOrder ledger coin row = .ok id) :
    ∃ order, ledger.get id = some order ∧ order.managedHedge = true ∧ order.terminal = false := by
  unfold managedOpenOrder at matched
  simp only [bind_eq_ok, context_eq_ok, ensure_eq_ok, pure_eq_ok] at matched
  obtain ⟨oid, -, order, found, _, owned, _, live, rfl⟩ := matched
  have mem : order ∈ ledger.orders := Ledger.mem_values.mp (List.mem_of_find?_eq_some found)
  exact ⟨order, Ledger.get_of_mem mem, owned.1, live⟩

theorem managed_of_managedOpenOrders (matched : managedOpenOrders ledger open_ coin = .ok ids)
    {id : String} (mem : id ∈ ids) :
    ∃ order, ledger.get id = some order ∧ order.managedHedge = true ∧ order.terminal = false := by
  unfold managedOpenOrders at matched
  simp only [bind_eq_ok, context_eq_ok, ensure_eq_ok, pure_eq_ok] at matched
  obtain ⟨rows, -, ids, all, _, -, rfl⟩ := matched
  obtain ⟨row, -, here⟩ := mem_of_mapM_eq_ok all mem
  exact managedOpenOrder_eq_ok here

theorem mem_of_managedOpenOrders (matched : managedOpenOrders ledger open_ coin = .ok ids)
    {id : String} {order : Order} (recorded : ledger.get id = some order)
    (live : order.terminal = false) : id ∈ ids := by
  unfold managedOpenOrders at matched
  simp only [bind_eq_ok, context_eq_ok, ensure_eq_ok, pure_eq_ok] at matched
  obtain ⟨rows, -, ids, -, _, complete, rfl⟩ := matched
  have mem : order ∈ ledger.values := Ledger.mem_values.mpr (Ledger.mem_of_get recorded)
  rw [← Ledger.cloid_of_get recorded]
  exact complete order mem live

/-- The matched ids are exactly those of the unresolved records. -/
theorem managedOpenOrders_iff (matched : managedOpenOrders ledger open_ coin = .ok ids)
    (id : String) :
    id ∈ ids ↔ ∃ order ∈ ledger.orders, order.cloid = id ∧ order.terminal = false := by
  constructor
  · intro mem
    obtain ⟨order, recorded, -, live⟩ := managed_of_managedOpenOrders matched mem
    exact ⟨order, Ledger.mem_of_get recorded, Ledger.cloid_of_get recorded, live⟩
  · rintro ⟨order, mem, rfl, live⟩
    exact mem_of_managedOpenOrders matched (Ledger.get_of_mem mem) live

end ManagedOpenOrders

end Journal

namespace Controller

/-- Everything cancelled since the start is a recorded order of the hedge. -/
def Owned (start w : Desk) : Prop :=
  ∃ cancelled, w.cancelled = cancelled ++ start.cancelled ∧
    ∀ entry ∈ cancelled, ∃ order, entry.2 = some order ∧ order.managedHedge = true

section Runs

variable {start w w' : Desk} {user id : String}

theorem Owned.of_cancelled (owned : Owned start w) (same : w'.cancelled = w.cancelled) :
    Owned start w' := by
  obtain ⟨cancelled, appended, managed⟩ := owned
  exact ⟨cancelled, same.trans appended, managed⟩

theorem Owned.cancel (owned : Owned start w) {order : Order}
    (recorded : w.ledger.get id = some order) (managed : order.managedHedge = true)
    (cancelled : w'.cancelled = (id, w.ledger.get id) :: w.cancelled) : Owned start w' := by
  obtain ⟨earlier, appended, kept⟩ := owned
  refine ⟨(id, w.ledger.get id) :: earlier, ?_, ?_⟩
  · rw [cancelled, appended]
    rfl
  · intro entry mem
    rcases List.mem_cons.mp mem with rfl | old
    · exact ⟨order, recorded, managed⟩
    · exact kept entry old

theorem Owned.grounded (owned : Owned start w) (grounded : Grounded id w w') : Owned start w' := by
  obtain ⟨answers, since⟩ := grounded
  exact owned.of_cancelled since.cancelled

/-- The record of `id` is as `resolve` leaves it, and the others are untouched. -/
structure Resolved (id : String) (before after : Ledger) (order : Order) : Prop where
  recorded : after.get id = some order
  managed : ∀ old, before.get id = some old → order.managedHedge = old.managedHedge
  others : ∀ other, other ≠ id → after.get other = before.get other

theorem spec_resolve_owned {terminalOnly : Bool} (owned : Owned start w) :
    machine.spec (Owned start) (resolve user id terminalOnly)
      (fun response w' => ∃ order, Resolved id w.ledger w'.ledger order ∧
        (terminalOnly = true → order.terminal = true) ∧
        (order.terminal = true ∨ describesOrder response ∧ responseStatus response = some "open"))
      w := by
  have grounded : machine.spec (Owned start) (resolve user id terminalOnly)
      (Concluded id terminalOnly w) w :=
    Machine.wp_mono_inv (spec_resolve user id terminalOnly w) fun _ => owned.grounded
  apply Machine.spec_mono grounded
  rintro response w' - ⟨answers, order, since, recorded, final, grounds⟩
  refine ⟨order, ⟨recorded, ?_, ?_⟩, final, ?_⟩
  · intro old stored
    obtain ⟨order', result, -, managed⟩ := since.evidence.get stored
    rw [recorded] at result
    cases result
    exact managed
  · intro other different
    exact since.evidence.get_other different
  · rcases grounds with ⟨terminal, -, -⟩ | ⟨-, confirms, isOpen | terminal⟩
    · exact .inl terminal
    · right
      rw [confirms.status, isOpen]
      exact ⟨confirms.describes, rfl⟩
    · exact .inl terminal

theorem Resolved.trans {before middle after : Ledger} {order order' : Order}
    (first : Resolved id before middle order) (second : Resolved id middle after order') :
    Resolved id before after order' where
  recorded := second.recorded
  managed := fun old stored =>
    (second.managed order first.recorded).trans (first.managed old stored)
  others := fun other different =>
    (second.others other different).trans (first.others other different)

theorem spec_confirmCancelled (owned : Owned start w) :
    machine.spec (Owned start) (confirmCancelled user id)
      (fun _ w' => ∃ order, Resolved id w.ledger w'.ledger order ∧ order.terminal = true) w := by
  unfold confirmCancelled
  apply Machine.spec_bind
  apply Machine.spec_mono (spec_resolve_owned owned)
  rintro after w' owned' ⟨order, resolved, final, -⟩
  apply Machine.spec_ofExcept owned'
  intro _ _
  exact ⟨order, resolved, final rfl⟩

/-- Whatever a cancel replies, the order is looked up after it until it is final. -/
theorem spec_cancelIfOpen {old : Order} (owned : Owned start w)
    (recorded : w.ledger.get id = some old) (managed : old.managedHedge = true) :
    machine.spec (Owned start) (cancelIfOpen user id)
      (fun _ w' => ∃ order, Resolved id w.ledger w'.ledger order ∧ order.terminal = true) w := by
  unfold cancelIfOpen
  apply Machine.spec_bind
  apply Machine.spec_mono (spec_resolve_owned owned)
  rintro status w₁ owned₁ ⟨order, resolved, -, settled⟩
  have ours : order.managedHedge = true := (resolved.managed old recorded).trans managed
  by_cases isOpen : describesOrder status ∧ responseStatus status = some "open"
  · rw [if_pos isOpen]
    apply Machine.spec_bind
    apply spec_cancel owned₁
    intro pending result
    have owned₂ : Owned start { w₁ with
        pending := pending
        cancelled := (id, w₁.ledger.get id) :: w₁.cancelled } :=
      owned₁.cancel resolved.recorded ours rfl
    have confirmed : machine.spec (Owned start) (confirmCancelled user id)
        (fun _ w' => ∃ order, Resolved id w.ledger w'.ledger order ∧ order.terminal = true)
        { w₁ with
          pending := pending
          cancelled := (id, w₁.ledger.get id) :: w₁.cancelled } := by
      apply Machine.spec_mono (spec_confirmCancelled owned₂)
      rintro _ w' - ⟨order', later, terminal⟩
      exact ⟨order', resolved.trans later, terminal⟩
    refine ⟨owned₂, ?_⟩
    cases result with
    | ok _ => exact confirmed
    | error failure =>
        apply Machine.spec_bind
        apply spec_readPending owned₂
        split_ifs
        · exact Machine.spec_throw owned₂
        · exact confirmed
  · rw [if_neg isOpen]
    apply Machine.spec_pure owned₁
    exact ⟨order, resolved, settled.resolve_right isOpen⟩

/-- The records which may still be unresolved are those of `ids`, and all of these are ours. -/
structure Outstanding (ids : List String) (ledger : Ledger) : Prop where
  settled : ∀ id order, ledger.get id = some order → order.terminal = true ∨ id ∈ ids
  managed : ∀ id ∈ ids, ∃ order, ledger.get id = some order ∧ order.managedHedge = true

theorem Outstanding.of_managedOpenOrders {ledger : Ledger} {open_ : Json} {coin : String}
    {ids : List String} (matched : managedOpenOrders ledger open_ coin = .ok ids) :
    Outstanding ids ledger where
  settled := by
    intro id order recorded
    cases live : order.terminal with
    | true => exact .inl rfl
    | false => exact .inr (mem_of_managedOpenOrders matched recorded live)
  managed := by
    intro id mem
    obtain ⟨order, recorded, managed, -⟩ := managed_of_managedOpenOrders matched mem
    exact ⟨order, recorded, managed⟩

/-- One resolved record is one outstanding id less. -/
theorem Outstanding.resolve {ids : List String} {before after : Ledger} {order : Order}
    (outstanding : Outstanding (id :: ids) before) (resolved : Resolved id before after order)
    (terminal : order.terminal = true) : Outstanding ids after where
  settled := by
    intro other found recorded
    by_cases here : other = id
    · subst here
      rw [resolved.recorded] at recorded
      cases recorded
      exact .inl terminal
    · rw [resolved.others other here] at recorded
      rcases outstanding.settled other found recorded with final | mem
      · exact .inl final
      · exact .inr (List.mem_of_ne_of_mem here mem)
  managed := by
    intro other mem
    obtain ⟨old, recorded, managed⟩ := outstanding.managed other (List.mem_cons_of_mem _ mem)
    by_cases here : other = id
    · subst here
      exact ⟨order, resolved.recorded, (resolved.managed old recorded).trans managed⟩
    · exact ⟨old, (resolved.others other here).trans recorded, managed⟩

theorem spec_cancelStale {ids : List String} (owned : Owned start w)
    (outstanding : Outstanding ids w.ledger) :
    machine.spec (Owned start) (cancelStale user ids) (fun _ w' => Outstanding [] w'.ledger) w := by
  induction ids generalizing w with
  | nil => exact Machine.spec_pure owned outstanding
  | cons id ids inductionHypothesis =>
      obtain ⟨order, recorded, managed⟩ := outstanding.managed id List.mem_cons_self
      unfold cancelStale
      apply Machine.spec_bind
      apply spec_record owned
      apply Machine.spec_bind
      apply Machine.spec_mono (spec_cancelIfOpen owned recorded managed)
      rintro _ w' owned' ⟨order', resolved, terminal⟩
      exact inductionHypothesis owned' (outstanding.resolve resolved terminal)

/-- A later state of an order can only be one of the records which stay. -/
theorem Outstanding.sub {before after : Ledger} (outstanding : Outstanding [] before)
    (sub : ∀ id order, after.get id = some order → before.get id = some order) :
    Outstanding [] after where
  settled := fun id order recorded => outstanding.settled id order (sub id order recorded)
  managed := fun _ mem => nomatch mem

theorem spec_archiveAll {removed : List (Nat × String)} {ledger : Ledger} (owned : Owned start w) :
    machine.spec (Owned start) (archiveAll removed ledger)
      (fun kept w' => (∀ id order, kept.get id = some order → ledger.get id = some order) ∧
        w'.answers = w.answers) w := by
  induction removed generalizing w ledger with
  | nil => exact Machine.spec_pure owned ⟨fun _ _ found => found, rfl⟩
  | cons first rest inductionHypothesis =>
      unfold archiveAll
      apply Machine.spec_bind
      apply Machine.spec_ofExcept owned
      intro order _
      apply Machine.spec_bind
      have archived : Owned start { w with archive := order :: w.archive } :=
        owned.of_cancelled rfl
      apply spec_archiveOrder owned archived
      apply Machine.spec_mono (inductionHypothesis archived)
      rintro kept w' - ⟨sub, answers⟩
      exact ⟨fun id order found => Ledger.get_of_get_erase (sub id order found), answers⟩

/-- Pruning leaves only records which were there. -/
theorem spec_compact {keep : Nat} (owned : Owned start w) (outstanding : Outstanding [] w.ledger) :
    machine.spec (Owned start) (compact keep)
      (fun _ w' => Outstanding [] w'.ledger ∧ w'.answers = w.answers) w := by
  unfold compact
  apply Machine.spec_bind
  apply spec_readHedgeOrder owned
  apply Machine.spec_bind
  apply spec_readPending owned
  split_ifs
  · apply Machine.spec_bind
    apply spec_readOrders owned
    apply Machine.spec_bind
    apply Machine.spec_mono (spec_archiveAll owned)
    rintro kept w' owned' ⟨sub, answers⟩
    apply spec_updateOrders owned'
    rintro _ ledger ⟨⟩
    exact ⟨owned'.of_cancelled rfl, outstanding.sub sub, answers⟩
  · exact Machine.spec_pure owned ⟨outstanding, rfl⟩

theorem spec_observeOpenOrders (owned : Owned start w) :
    machine.spec (Owned start) observeOpenOrders (fun answer w' => w'.ledger = w.ledger ∧
      w'.answers = (.openOrders, answer) :: w.answers) w := by
  unfold observeOpenOrders
  apply Machine.spec_bind
  apply spec_ask owned
  intro answer
  have asked : Owned start { w with answers := (.openOrders, answer) :: w.answers } :=
    owned.of_cancelled rfl
  refine ⟨asked, ?_⟩
  apply Machine.spec_bind
  apply spec_record asked
  exact Machine.spec_pure asked ⟨rfl, rfl⟩

theorem spec_importLegacy (owned : Owned start w) :
    machine.spec (Owned start) (importLegacy user) (fun _ _ => True) w := by
  unfold importLegacy
  apply Machine.spec_bind
  apply spec_readHedgeOrder owned
  split_ifs
  · exact Machine.spec_pure owned trivial
  · apply Machine.spec_bind
    apply Machine.spec_ofExcept owned
    intro _ _
    apply spec_updateOrders owned
    intro _ _ _
    exact ⟨owned.of_cancelled rfl, trivial⟩

theorem spec_refreshOrders {orders : List Order} (owned : Owned start w) :
    machine.spec (Owned start) (refreshOrders user orders) (fun _ _ => True) w := by
  induction orders generalizing w with
  | nil => exact Machine.spec_pure owned trivial
  | cons order orders inductionHypothesis =>
      unfold refreshOrders
      apply Machine.spec_bind
      apply Machine.spec_ofExcept owned
      intro _ _
      split_ifs
      · exact inductionHypothesis owned
      · apply Machine.spec_bind
        apply Machine.spec_mono (spec_resolve_owned owned)
        intro _ w' owned' _
        exact inductionHypothesis owned'

theorem spec_refresh (owned : Owned start w) :
    machine.spec (Owned start) (refresh user) (fun _ _ => True) w := by
  unfold refresh
  apply Machine.spec_bind
  apply Machine.spec_mono (spec_importLegacy owned)
  intro _ w' owned' _
  apply Machine.spec_bind
  apply spec_readOrders owned'
  exact spec_refreshOrders owned'

theorem spec_syncOrders (user coin : String) (keep : Nat) (recoverManaged : Bool) (start : Desk) :
    machine.spec (Owned start) (syncOrders user coin keep recoverManaged)
      (fun _ w' => Outstanding [] w'.ledger ∧ ∃ last earlier,
        w'.answers = (.openOrders, last) :: earlier ∧ last.asArray = some []) start := by
  have owned : Owned start start := ⟨[], rfl, nofun⟩
  unfold syncOrders
  apply Machine.spec_bind
  apply Machine.spec_mono (spec_observeOpenOrders owned)
  intro _ w₁ owned₁ _
  apply Machine.spec_bind
  apply Machine.spec_mono (spec_refresh owned₁)
  intro _ w₂ owned₂ _
  apply Machine.spec_bind
  apply Machine.spec_mono (spec_observeOpenOrders owned₂)
  intro open_ w₃ owned₃ _
  apply Machine.spec_bind
  apply spec_readOrders owned₃
  apply Machine.spec_bind
  apply Machine.spec_ofExcept owned₃
  intro ids matched
  apply Machine.spec_bind
  apply Machine.spec_ofExcept owned₃
  intro _ _
  apply Machine.spec_bind
  apply Machine.spec_mono (spec_cancelStale owned₃ (.of_managedOpenOrders matched))
  intro _ w₄ owned₄ none
  apply Machine.spec_bind
  apply Machine.spec_mono (spec_observeOpenOrders owned₄)
  rintro last w₅ owned₅ ⟨ledger, answers⟩
  apply Machine.spec_bind
  apply Machine.spec_ofExcept owned₅
  intro rows array
  rw [context_eq_ok] at array
  split_ifs with empty
  · subst empty
    apply Machine.spec_bind
    have cleared : Owned start { w₅ with hedgeOrder := .null } := owned₅.of_cancelled rfl
    apply spec_writeHedgeOrder owned₅ cleared
    have settled : Outstanding [] w₅.ledger := by
      rw [ledger]
      exact none
    apply Machine.spec_mono (spec_compact cleared settled)
    rintro _ w₆ - ⟨kept, same⟩
    exact ⟨kept, last, _, same.trans answers, array⟩
  · -- a lagging list is an error, whatever it holds
    apply Machine.spec_bind
    apply spec_readOrders owned₅
    apply Machine.spec_bind
    apply Machine.spec_ofExcept owned₅
    intro _ _
    exact Machine.spec_throw owned₅

end Runs

/-- However the exchange answers: where `syncOrders` succeeds, its last read of the open orders
was empty and every record is final; it cancels only orders which the ledger holds for the hedge;
and the ids of `managedOpenOrders` are exactly those of the unresolved records. -/
theorem sync_orders_postcondition (user coin : String) (keep : Nat) (recoverManaged : Bool)
    (inputs : List DeskInput) (start : Desk) :
    ((machine.run (syncOrders user coin keep recoverManaged) inputs start).1 =
        .finished (.ok ()) →
      (∃ last earlier,
        (machine.run (syncOrders user coin keep recoverManaged) inputs start).2.answers =
          (.openOrders, last) :: earlier ∧ last.asArray = some []) ∧
      ∀ order ∈
        (machine.run (syncOrders user coin keep recoverManaged) inputs start).2.ledger.orders,
        order.terminal = true) ∧
    (∃ cancelled,
      (machine.run (syncOrders user coin keep recoverManaged) inputs start).2.cancelled =
        cancelled ++ start.cancelled ∧
      ∀ entry ∈ cancelled, ∃ order, entry.2 = some order ∧ order.managedHedge = true) ∧
    ∀ (ledger : Ledger) (open_ : Json) (ids : List String),
      managedOpenOrders ledger open_ coin = .ok ids →
        ∀ id, id ∈ ids ↔ ∃ order ∈ ledger.orders, order.cloid = id ∧ order.terminal = false := by
  obtain ⟨owned, finished⟩ :=
    Machine.spec_sound (spec_syncOrders user coin keep recoverManaged start) inputs
  refine ⟨fun succeeded => ?_, owned, fun ledger open_ ids matched id =>
    managedOpenOrders_iff matched id⟩
  obtain ⟨none, last⟩ := finished () succeeded
  refine ⟨last, fun order mem => ?_⟩
  rcases none.settled order.cloid order (Ledger.get_of_mem mem) with terminal | impossible
  · exact terminal
  · cases impossible

end Controller

end LpMaker.Hyperliquid
