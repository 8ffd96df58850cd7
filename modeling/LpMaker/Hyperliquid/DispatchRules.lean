import LpMaker.Hyperliquid.OrderRecords

/-!
# Rules of the requests

What is stored agrees at each moment with what was sent, and this file says for every step of a
request and of its reconciliation why that stays so.
-/

namespace LpMaker.Hyperliquid

open Semantics Journal Dispatch Ledger OrderRecovery

/-- The orders of an action. -/
def orders (action : Json) : List Json :=
  if isOrder action then (action.field "orders").asArray.getD [] else []

/-- The client ids of the orders of an action. -/
def clientIds (action : Json) : List String :=
  (orders action).filterMap fun intent => (intent.field "c").asStr

/-- The client ids of a stored request of which nothing was sent. -/
def preparedIds (pending : Json) : List String :=
  if (pending.field "venue").asStr = some "hyperliquid" ∧
    (pending.field "dispatch_state").asStr = some "prepared"
  then clientIds ((pending.field "request").field "action") else []

/-- The record of a sent order: what was sent, for whom and under which nonce. -/
structure Request.Records (r : Request) (intent : Json) (o : Order) : Prop where
  cloid : intent.field "c" = .str o.cloid
  wire : o.wire = intent
  user : o.user = r.user
  submittedMs : o.submittedMs = r.nonce

/-- What is stored agrees with what was sent. -/
structure Consistent (requests : List Request) (records : Order → Prop) (pending : Json) :
    Prop where
  /-- Until the exchange answers, the request stays stored. -/
  kept : ∀ r ∈ requests, ∀ intent ∈ orders r.action, ∃ o, records o ∧ r.Records intent o ∧
    (o.Answered ∨ o.terminal = false ∧ pending = r.pending "submitting")
  unsent : ∀ o, records o → o.Unsent → ∀ r ∈ requests, ∀ id ∈ clientIds r.action,
    asciiLower id ≠ asciiLower o.cloid
  prepared : ∀ id ∈ preparedIds pending, ∀ r ∈ requests, ∀ id' ∈ clientIds r.action,
    asciiLower id' ≠ asciiLower id

namespace Dispatcher

/-- What holds at each moment of every run. -/
structure Sound (w : Dispatcher) : Prop where
  rising : w.posted.Pairwise fun later earlier => earlier.1.nonce < later.1.nonce
  reserved : ∀ e ∈ w.posted, e.1.nonce ≤ w.lastNonce
  once : ((w.posted.flatMap fun e => clientIds e.1.action).map asciiLower).Nodup
  stored : ∀ e ∈ w.posted, e.2.pending = e.1.pending "submitting"
  consistent : Consistent (w.posted.map Prod.fst) w.desk.Holds w.desk.pending

end Dispatcher

open Dispatcher

section Stored

variable {r r' : Request} {action intent pending : Json} {state state' id : String}

theorem pending_venue : ((r.pending state).field "venue").asStr = some "hyperliquid" := rfl

theorem pending_state : ((r.pending state).field "dispatch_state").asStr = some state := rfl

theorem pending_action : ((r.pending state).field "request").field "action" = r.action := rfl

theorem pending_injective (same : r.pending state = r'.pending state') : r = r' := by
  obtain ⟨action, nonce, signature, vault, user, hedge⟩ := r
  obtain ⟨action', nonce', signature', vault', user', hedge'⟩ := r'
  unfold Request.pending Request.body at same
  simp only [Json.obj.injEq, List.cons.injEq, Prod.mk.injEq, Json.nat.injEq, Json.str.injEq,
    true_and, and_true] at same
  obtain ⟨⟨rfl, rfl, rfl, rfl, -⟩, rfl, -, rfl⟩ := same
  rfl

theorem preparedIds_prepared : preparedIds (r.pending "prepared") = clientIds r.action :=
  if_pos ⟨pending_venue, pending_state⟩

theorem preparedIds_submitting : preparedIds (r.pending "submitting") = [] := by
  refine if_neg ?_
  rintro ⟨-, prepared⟩
  rw [pending_state] at prepared
  exact absurd (Option.some.inj prepared) (by decide)

theorem preparedIds_foreign (foreign : (pending.field "venue").asStr ≠ some "hyperliquid") :
    preparedIds pending = [] :=
  if_neg fun both => foreign both.1

theorem mem_clientIds :
    id ∈ clientIds action ↔ ∃ intent ∈ orders action, intent.field "c" = .str id := by
  simp [clientIds, List.mem_filterMap]

theorem clientIds_of_carries {intents : List Json} {ids : List String} (order : isOrder action)
    (listed : action.field "orders" = .arr intents) (carries : Carries intents ids) :
    clientIds action = ids := by
  unfold clientIds orders
  rw [if_pos order, listed]
  change intents.filterMap _ = ids
  clear listed
  induction intents generalizing ids with
  | nil =>
      cases ids with
      | nil => rfl
      | cons _ _ => cases carries
  | cons intent intents inductionHypothesis =>
      cases ids with
      | nil => cases carries
      | cons id ids =>
          unfold Carries at carries
          rw [List.map_cons, List.map_cons, List.cons.injEq] at carries
          rw [List.filterMap_cons, carries.1]
          exact congrArg (id :: ·) (inductionHypothesis carries.2)

end Stored

section Consistent

variable {requests : List Request} {records records' : Order → Prop} {pending value : Json}
  {r : Request} {id : String}

/-- A sent order has a record under its own id. -/
theorem Consistent.held (consistent : Consistent requests records pending) (mem : r ∈ requests)
    (named : id ∈ clientIds r.action) : ∃ o, records o ∧ o.cloid = id := by
  obtain ⟨intent, listed, same⟩ := mem_clientIds.mp named
  obtain ⟨o, held, recorded, -⟩ := consistent.kept r mem intent listed
  exact ⟨o, held, Json.str.inj (recorded.cloid.symm.trans same)⟩

/-- The exchange answered for the order. -/
def Request.AnsweredIn (r : Request) (records : Order → Prop) (intent : Json) : Prop :=
  ∃ o, records o ∧ r.Records intent o ∧ o.Answered

def Answers (requests : List Request) (records : Order → Prop) : Prop :=
  ∀ r ∈ requests, ∀ intent ∈ orders r.action, r.AnsweredIn records intent

theorem Request.Records.succeed {intent : Json} {o o' : Order} (recorded : r.Records intent o)
    (succeeds : Succeeds o o') : r.Records intent o' where
  cloid := succeeds.cloid ▸ recorded.cloid
  wire := succeeds.wire.trans recorded.wire
  user := succeeds.user.trans recorded.user
  submittedMs := succeeds.submittedMs.trans recorded.submittedMs

/-- The record of a sent order stays, and stays one of the same order. -/
theorem Request.Records.advance {intent : Json} {o : Order} (recorded : r.Records intent o)
    (held : records o) (advances : Advances records records') :
    ∃ o', records' o' ∧ Succeeds o o' := by
  apply advances.kept o held
  intro null
  have named := recorded.cloid
  rw [← recorded.wire, null] at named
  cases named

theorem Request.AnsweredIn.advance {intent : Json} (answered : r.AnsweredIn records intent)
    (advances : Advances records records') : r.AnsweredIn records' intent := by
  obtain ⟨o, held, recorded, answered⟩ := answered
  obtain ⟨o', held', succeeds⟩ := recorded.advance held advances
  refine ⟨o', held', recorded.succeed succeeds, ?_⟩
  rcases succeeds.answered with rfl | answered'
  · exact answered
  · exact answered'

theorem Consistent.advance (consistent : Consistent requests records pending)
    (advances : Advances records records') : Consistent requests records' pending where
  kept := by
    intro r mem intent listed
    obtain ⟨o, held, recorded, known⟩ := consistent.kept r mem intent listed
    obtain ⟨o', held', succeeds⟩ := recorded.advance held advances
    refine ⟨o', held', recorded.succeed succeeds, ?_⟩
    rcases succeeds.answered with rfl | answered
    · exact known
    · exact .inl answered
  unsent := by
    intro o' held' unsent r mem id named
    obtain ⟨o, held, unsent', same⟩ := advances.unsent o' held' unsent
    rw [← same]
    exact consistent.unsent o held unsent' r mem id named
  prepared := consistent.prepared

theorem Consistent.answers (consistent : Consistent requests records pending)
    (other : ∀ r ∈ requests, orders r.action ≠ [] → pending ≠ r.pending "submitting") :
    Answers requests records := by
  intro r mem intent listed
  obtain ⟨o, held, recorded, answered | ⟨-, same⟩⟩ := consistent.kept r mem intent listed
  · exact ⟨o, held, recorded, answered⟩
  · exact absurd same (other r mem (List.ne_nil_of_mem listed))

/-- Once every sent order is answered, anything may be stored which is not yet sent. -/
theorem Consistent.store (consistent : Consistent requests records pending)
    (answers : Answers requests records)
    (prepared : ∀ id ∈ preparedIds value, ∀ r ∈ requests, ∀ id' ∈ clientIds r.action,
      asciiLower id' ≠ asciiLower id) : Consistent requests records value where
  kept := by
    intro r mem intent listed
    obtain ⟨o, held, recorded, answered⟩ := answers r mem intent listed
    exact ⟨o, held, recorded, .inl answered⟩
  unsent := consistent.unsent
  prepared := prepared

theorem Consistent.clear (consistent : Consistent requests records pending)
    (answers : Answers requests records) : Consistent requests records .null :=
  consistent.store answers fun _ mem => absurd mem List.not_mem_nil

end Consistent

section Rules

variable {w : Dispatcher} {d : Desk} {value : Json} {r : Request}

namespace Dispatcher

theorem Sound.of_desk (sound : w.Sound)
    (consistent : Consistent (w.posted.map Prod.fst) d.Holds d.pending) :
    Sound { w with desk := d } :=
  ⟨sound.rising, sound.reserved, sound.once, sound.stored, consistent⟩

theorem Sound.moves (sound : w.Sound) (moves : Moves w.desk d) : Sound { w with desk := d } := by
  apply sound.of_desk
  rw [moves.pending]
  exact sound.consistent.advance moves.records

/-- The stored files are one part of what a process works on. -/
def embedding : Machine.Embedding Desk.machine machine DispatchOp.desk fun _ reply => reply where
  input := id
  world := Dispatcher.desk
  replies := by
    intro op input w
    change ((Desk.step op input w.desk).1).map (fun reply => reply) = (Desk.step op input w.desk).1
    cases (Desk.step op input w.desk).1 with
    | ok _ | error _ => rfl
  step := fun _ _ _ => rfl

/-- A program on the stored files touches nothing else. -/
theorem spec_embed {α : Type} {program : DeskProgram α} {Inv : Desk → Prop} {P : α → Desk → Prop}
    (sound : ∀ d, Inv d → Sound { w with desk := d })
    (holds : Desk.machine.spec Inv program P w.desk) :
    machine.spec Sound (onDesk program)
      (fun value w' => ∃ d, w' = { w with desk := d } ∧ Inv d ∧ P value d) w := by
  have kept : ∀ (op : DeskOp) (input : DeskInput) (w' : Dispatcher), True →
      w' = { w with desk := w'.desk } →
      (machine.step (.desk op) input w').2 =
        { w with desk := (machine.step (.desk op) input w').2.desk } := by
    intro op input w' _ frame
    rw [frame]
    rfl
  have everywhere := Machine.wp_embed embedding kept program.uses_always rfl holds
  refine Machine.wp_mono_inv (Machine.wp_mono everywhere ?_) ?_
  · rintro result w' ⟨-, inv⟩ ⟨frame, post⟩ value same
    exact ⟨w'.desk, frame, inv, post value same⟩
  · rintro w' ⟨frame, inv⟩
    rw [frame]
    exact sound w'.desk inv

theorem spec_onDesk {α : Type} {program : DeskProgram α} {P : α → Desk → Prop} (sound : w.Sound)
    (holds : Desk.machine.spec (Moves w.desk) program P w.desk) :
    machine.spec Sound (onDesk program)
      (fun value w' => ∃ d, w' = { w with desk := d } ∧ Moves w.desk d ∧ P value d) w :=
  spec_embed (fun _ => sound.moves) holds

theorem spec_read {α : Type} {program : DeskProgram α} {P : α → Dispatcher → Prop} {result : α}
    (sound : w.Sound)
    (reads : Desk.machine.spec (Moves w.desk) program (fun value d => value = result ∧ d = w.desk)
      w.desk)
    (holds : P result w) : machine.spec Sound (onDesk program) P w := by
  apply Machine.spec_mono (spec_onDesk sound reads)
  rintro value w' - ⟨d, rfl, -, rfl, rfl⟩
  exact holds

theorem spec_readOrders {P : Ledger → Dispatcher → Prop} (sound : w.Sound)
    (holds : P w.desk.ledger w) : machine.spec Sound (onDesk Desk.readOrders) P w :=
  spec_read sound (Desk.spec_readOrders (.refl _) ⟨rfl, rfl⟩) holds

theorem spec_readHedgeOrder {P : Json → Dispatcher → Prop} (sound : w.Sound)
    (holds : P w.desk.hedgeOrder w) : machine.spec Sound (onDesk Desk.readHedgeOrder) P w :=
  spec_read sound (Desk.spec_readHedgeOrder (.refl _) ⟨rfl, rfl⟩) holds

theorem spec_readPending {P : Json → Dispatcher → Prop} (sound : w.Sound)
    (holds : P w.desk.pending w) : machine.spec Sound readPending P w :=
  spec_read sound (Desk.spec_readPending (.refl _) ⟨rfl, rfl⟩) holds

theorem spec_record {P : Unit → Dispatcher → Prop} (sound : w.Sound) (holds : P () w) :
    machine.spec Sound (onDesk (Desk.call .record)) P w :=
  spec_read sound (Desk.spec_record (.refl _) ⟨rfl, rfl⟩) holds

theorem spec_archived {id : String} {P : Option Order → Dispatcher → Prop} (sound : w.Sound)
    (holds : ∀ found, archivedOrder w.desk.archive id = .ok found → P found w) :
    machine.spec Sound (archived id) P w := by
  apply Machine.spec_call sound
  intro input
  refine ⟨sound, fun found replied => holds found ?_⟩
  change (do let _ ← input.reply; archivedOrder w.desk.archive id) = Except.ok found at replied
  obtain ⟨_, -, same⟩ := bind_eq_ok.mp replied
  exact same

theorem spec_check {P : Unit → Dispatcher → Prop} (sound : w.Sound) (holds : P () w) :
    machine.spec Sound check P w :=
  Machine.spec_call sound fun _ => ⟨sound, fun _ _ => holds⟩

theorem spec_clock {P : Nat → Dispatcher → Prop} (sound : w.Sound) (holds : ∀ now, P now w) :
    machine.spec Sound clock P w :=
  Machine.spec_call sound fun _ => ⟨sound, fun now _ => holds now⟩

theorem spec_readNonce {P : Nat → Dispatcher → Prop} (sound : w.Sound) (holds : P w.lastNonce w) :
    machine.spec Sound readNonce P w := by
  apply Machine.spec_call sound
  intro input
  refine ⟨sound, fun last replied => ?_⟩
  change input.reply.map (fun _ => w.lastNonce) = Except.ok last at replied
  cases reply : input.reply with
  | ok _ =>
      rw [reply] at replied
      cases replied
      exact holds
  | error _ =>
      rw [reply] at replied
      cases replied

theorem write_sound {input : DeskInput} {written : Dispatcher} {P : Unit → Dispatcher → Prop}
    (sound : w.Sound) (kept : written.Sound) (holds : P () written) :
    (write input written w).2.Sound ∧
      ∀ value, (write input written w).1 = .ok value → P value (write input written w).2 := by
  unfold write
  cases input.reply with
  | ok _ => exact ⟨kept, fun _ _ => holds⟩
  | error failure =>
      constructor
      · dsimp only
        split_ifs
        · exact kept
        · exact sound
      · intro value same
        cases same

theorem spec_writeNonce {nonce : Nat} {P : Unit → Dispatcher → Prop} (sound : w.Sound)
    (raised : w.lastNonce ≤ nonce) (holds : P () { w with nonce := some nonce }) :
    machine.spec Sound (call (.writeNonce nonce)) P w := by
  have kept : Sound { w with nonce := some nonce } :=
    ⟨sound.rising, fun e mem => (sound.reserved e mem).trans raised, sound.once, sound.stored,
      sound.consistent⟩
  exact Machine.spec_call sound fun _ => write_sound sound kept holds

theorem spec_writePending {P : Unit → Dispatcher → Prop} (sound : w.Sound)
    (consistent : Consistent (w.posted.map Prod.fst) w.desk.Holds value)
    (holds : P () { w with desk := { w.desk with pending := value } }) :
    machine.spec Sound (call (.writePending value)) P w :=
  Machine.spec_call sound fun _ => write_sound sound (sound.of_desk consistent) holds

theorem spec_asset {P : Nat → Dispatcher → Prop} (sound : w.Sound) (holds : ∀ asset, P asset w) :
    machine.spec Sound asset P w :=
  Machine.spec_call sound fun _ => ⟨sound, fun asset _ => holds asset⟩

theorem spec_activeAsset {P : Json → Dispatcher → Prop} (sound : w.Sound)
    (holds : ∀ answer, P answer w) : machine.spec Sound activeAsset P w :=
  Machine.spec_call sound fun _ => ⟨sound, fun answer _ => holds answer⟩

/-- A request may have reached the exchange whatever comes back. -/
theorem spec_post {P : Json → Dispatcher → Prop} (sound : w.Sound)
    (posted : Sound { w with posted := (r, w.desk) :: w.posted })
    (holds : ∀ response, P response { w with posted := (r, w.desk) :: w.posted }) :
    machine.spec Sound (call (.post r)) P w :=
  Machine.spec_call sound fun _ => ⟨posted, fun response _ => holds response⟩

/-- A step of the program itself. -/
theorem spec_lift {α : Type} {result : Except Failure α} {P : α → Dispatcher → Prop}
    (sound : w.Sound) (holds : ∀ value, result = .ok value → P value w) :
    machine.spec Sound (lift result) P w :=
  Machine.spec_ofExcept sound holds

end Dispatcher

end Rules

section Exchange

variable {w : Dispatcher} {r : Request} {action response : Json} {intents : List Json}
  {seen : List (List Char)} {user : String} {nonce : Nat} {ids : List String} {id : String}

/-- Nothing on record has one of these client ids. -/
def Unused (d : Desk) (ids : List String) : Prop :=
  ∀ id ∈ ids, ∀ o, d.Holds o → asciiLower o.cloid ≠ asciiLower id

/-- The orders of an action have client ids of their own. -/
def Fresh (d : Desk) (action : Json) : Prop :=
  isOrder action → ∃ intents ids, action.field "orders" = .arr intents ∧ Carries intents ids ∧
    (ids.map asciiLower).Nodup ∧ Unused d ids

theorem eqIgnoreAsciiCase_eq_false {a b : String} :
    eqIgnoreAsciiCase a b = false ↔ asciiLower a ≠ asciiLower b := by
  simp [eqIgnoreAsciiCase, asciiLower]

theorem not_archived {archive : List Order} {found : Option Order}
    (read : archivedOrder archive id = .ok found) (none : found.isNone = true) :
    ∀ o ∈ archive, asciiLower o.cloid ≠ asciiLower id := by
  unfold archivedOrder archiveName at read
  simp only [bind_eq_ok, ensure_eq_ok, pure_eq_ok] at read
  obtain ⟨name, ⟨_, -, rfl⟩, rfl⟩ := read
  intro o mem same
  rw [Option.isNone_iff_eq_none, List.find?_eq_none] at none
  exact none o mem (decide_eq_true same)

theorem spec_validateIds (sound : w.Sound) :
    machine.spec Sound (validateIds w.desk.ledger intents seen)
      (fun _ w' => w' = w ∧ ∃ ids, Carries intents ids ∧ (ids.map asciiLower).Nodup ∧
        (∀ id ∈ ids, asciiLower id ∉ seen) ∧ Unused w.desk ids) w := by
  induction intents generalizing seen with
  | nil =>
      refine Machine.spec_pure sound ⟨rfl, [], rfl, List.nodup_nil, ?_, ?_⟩
      · intro id mem
        exact absurd mem List.not_mem_nil
      · intro id mem
        exact absurd mem List.not_mem_nil
  | cons intent intents inductionHypothesis =>
      unfold validateIds
      apply Machine.spec_bind
      apply spec_lift sound
      intro id named
      rw [clientId_eq_ok] at named
      apply Machine.spec_bind
      apply spec_lift sound
      intro _ unseen
      rw [ensure_eq_ok] at unseen
      apply Machine.spec_bind
      apply spec_archived sound
      intro found read
      apply Machine.spec_bind
      apply spec_lift sound
      intro _ none
      rw [ensure_eq_ok] at none
      apply Machine.spec_mono (inductionHypothesis)
      rintro _ w' - ⟨rfl, ids, carries, distinct, later, unused⟩
      refine ⟨rfl, id :: ids, ?_, ?_, ?_, ?_⟩
      · unfold Carries at carries ⊢
        rw [List.map_cons, List.map_cons, named, carries]
      · rw [List.map_cons, List.nodup_cons]
        refine ⟨fun mem => ?_, distinct⟩
        obtain ⟨id', mem', same⟩ := List.mem_map.mp mem
        exact later id' mem' (same ▸ List.mem_cons_self)
      · intro id' mem
        rcases List.mem_cons.mp mem with rfl | mem
        · exact unseen.1
        · exact fun old => later id' mem (List.mem_cons_of_mem _ old)
      · intro id' mem
        rcases List.mem_cons.mp mem with rfl | mem
        · rintro o (hot | cold)
          · exact eqIgnoreAsciiCase_eq_false.mp (unseen.2 o hot)
          · exact not_archived read none o cold
        · exact unused id' mem

theorem spec_validateNewIds (sound : w.Sound) :
    machine.spec Sound (validateNewIds action) (fun _ w' => w' = w ∧ Fresh w.desk action) w := by
  unfold validateNewIds
  by_cases order : isOrder action
  · rw [if_pos order]
    apply Machine.spec_bind
    apply spec_readOrders sound
    apply Machine.spec_bind
    apply spec_lift sound
    intro intents listed
    unfold Journal.intents at listed
    rw [context_eq_ok, Json.asArray_eq_some] at listed
    apply Machine.spec_mono (spec_validateIds sound)
    rintro _ w' - ⟨rfl, ids, carries, distinct, -, unused⟩
    exact ⟨rfl, fun _ => ⟨intents, ids, listed, carries, distinct, unused⟩⟩
  · rw [if_neg order]
    exact Machine.spec_pure sound ⟨rfl, fun same => absurd same order⟩

theorem spec_quoteFresh {hedge : Option Json} (sound : w.Sound) :
    machine.spec Sound (Client.quoteFresh hedge) (fun _ w' => w' = w) w := by
  cases hedge with
  | none => exact Machine.spec_pure sound rfl
  | some hedge =>
      unfold Client.quoteFresh
      apply Machine.spec_bind
      apply spec_lift sound
      intro quote _
      apply Machine.spec_bind
      apply spec_clock sound
      intro now
      apply Machine.spec_bind
      apply spec_lift sound
      intro lifetime _
      exact spec_lift sound fun _ _ => rfl

/-- A nonce is above every earlier one, also where the clock went back. -/
theorem spec_nextNonce (sound : w.Sound) :
    machine.spec Sound Store.nextNonce
      (fun nonce w' => w.lastNonce < nonce ∧ w' = { w with nonce := some nonce }) w := by
  unfold Store.nextNonce
  apply Machine.spec_bind
  apply spec_readNonce sound
  apply Machine.spec_bind
  apply spec_clock sound
  intro now
  have above : w.lastNonce < max now (w.lastNonce + 1) := by omega
  apply Machine.spec_bind
  apply spec_writeNonce sound above.le
  apply Machine.spec_pure
  · exact ⟨sound.rising, fun e mem => (sound.reserved e mem).trans above.le, sound.once,
      sound.stored, sound.consistent⟩
  · exact ⟨above, rfl⟩

/-- No request which is not stored is unanswered. -/
theorem answers_of_null (sound : w.Sound) (free : w.desk.pending = .null) :
    Answers (w.posted.map Prod.fst) w.desk.Holds := by
  apply sound.consistent.answers
  intro r _ _ same
  rw [free] at same
  cases same

/-- The client ids of a new request were never sent. -/
theorem Dispatcher.Sound.new_ids (sound : w.Sound) (unused : Unused w.desk ids) :
    ∀ id ∈ ids, ∀ r ∈ w.posted.map Prod.fst, ∀ id' ∈ clientIds r.action,
      asciiLower id' ≠ asciiLower id := by
  intro id mem r sent id' named
  obtain ⟨o, held, rfl⟩ := sound.consistent.held sent named
  exact unused id mem o held

theorem Fresh.unused {d : Desk} (fresh : Fresh d action) : Unused d (clientIds action) := by
  by_cases order : isOrder action
  · obtain ⟨intents, ids, listed, carries, -, unused⟩ := fresh order
    rw [clientIds_of_carries order listed carries]
    exact unused
  · intro id mem
    obtain ⟨intent, listed, -⟩ := mem_clientIds.mp mem
    rw [orders, if_neg order] at listed
    cases listed

theorem Fresh.distinct {d : Desk} (fresh : Fresh d action) :
    ((clientIds action).map asciiLower).Nodup := by
  by_cases order : isOrder action
  · obtain ⟨intents, ids, listed, carries, distinct, -⟩ := fresh order
    rw [clientIds_of_carries order listed carries]
    exact distinct
  · rw [clientIds, orders, if_neg order]
    exact List.nodup_nil

theorem spec_begin (sound : w.Sound) (fresh : Fresh w.desk r.action) :
    machine.spec Sound (Store.begin (r.pending "prepared"))
      (fun _ w' => w' = { w with desk := { w.desk with pending := r.pending "prepared" } }) w := by
  unfold Store.begin
  apply Machine.spec_bind
  apply spec_check sound
  apply Machine.spec_bind
  apply spec_readPending sound
  apply Machine.spec_bind
  apply spec_lift sound
  intro _ free
  rw [ensure_eq_ok] at free
  have consistent : Consistent (w.posted.map Prod.fst) w.desk.Holds (r.pending "prepared") := by
    apply sound.consistent.store (answers_of_null sound (of_decide_eq_true free))
    rw [preparedIds_prepared]
    exact sound.new_ids fresh.unused
  apply Machine.spec_bind
  apply spec_writePending sound consistent
  exact spec_record (sound.of_desk consistent) rfl

theorem spec_writeHedge {hedge : Option Json} (sound : w.Sound) :
    machine.spec Sound (Client.writeHedge hedge)
      (fun _ w' => ∃ pointer, w' = { w with desk := { w.desk with hedgeOrder := pointer } }) w := by
  cases hedge with
  | none => exact Machine.spec_pure sound ⟨w.desk.hedgeOrder, rfl⟩
  | some hedge =>
      have moves : Moves w.desk { w.desk with hedgeOrder := hedge } :=
        (Moves.refl _).of_holds (fun _ => Iff.rfl) rfl
      apply Machine.spec_mono (spec_onDesk sound (Desk.spec_writeHedgeOrder
        (P := fun _ d => d = { w.desk with hedgeOrder := hedge }) (.refl _) moves rfl))
      rintro _ w' - ⟨d, rfl, -, rfl⟩
      exact ⟨hedge, rfl⟩

theorem spec_checkArchive (sound : w.Sound) :
    machine.spec Sound (checkArchive intents)
      (fun _ w' => w' = w ∧ ∀ intent ∈ intents, ∃ id, intent.field "c" = .str id ∧
        ∀ o ∈ w.desk.archive, asciiLower o.cloid ≠ asciiLower id) w := by
  induction intents with
  | nil => exact Machine.spec_pure sound ⟨rfl, fun _ mem => absurd mem List.not_mem_nil⟩
  | cons intent intents inductionHypothesis =>
      unfold checkArchive
      apply Machine.spec_bind
      apply spec_lift sound
      intro id named
      apply Machine.spec_bind
      apply spec_archived sound
      intro found read
      apply Machine.spec_bind
      apply spec_lift sound
      intro _ none
      apply Machine.spec_mono inductionHypothesis
      rintro _ w' - ⟨rfl, rest⟩
      refine ⟨rfl, fun intent' mem => ?_⟩
      rcases List.mem_cons.mp mem with rfl | mem
      · exact ⟨id, clientId_eq_ok.mp named, not_archived read (ensure_eq_ok.mp none)⟩
      · exact rest intent' mem

/-- The records are prepared, and no order is archived. -/
structure Prepared (w : Dispatcher) (action : Json) (user : String) (nonce : Nat)
    (ledger : Ledger) : Prop where
  advances : Advances w.desk.ledger.Records ledger.Records
  archive : ∀ intent ∈ orders action, ∃ id, intent.field "c" = .str id ∧
    ∀ o ∈ w.desk.archive, asciiLower o.cloid ≠ asciiLower id
  new : Fresh w.desk action → ∀ intent ∈ orders action, ∃ id managed, intent.field "c" = .str id ∧
    ledger.get id = some (preparedOrder user nonce managed id intent)

theorem spec_prepare (sound : w.Sound) :
    machine.spec Sound (prepare action user nonce)
      (fun _ w' => ∃ ledger, w' = { w with desk := { w.desk with ledger := ledger } } ∧
        Prepared w action user nonce ledger) w := by
  unfold prepare
  by_cases order : isOrder action
  · rw [if_pos order]
    apply Machine.spec_bind
    apply spec_readHedgeOrder sound
    apply Machine.spec_bind
    apply spec_readPending sound
    apply Machine.spec_bind
    apply spec_lift sound
    intro wires listed
    unfold Journal.intents at listed
    rw [context_eq_ok, Json.asArray_eq_some] at listed
    have same : orders action = wires := by
      rw [orders, if_pos order, listed]
      rfl
    apply Machine.spec_bind
    apply Machine.spec_mono (spec_checkArchive sound)
    rintro _ w' - ⟨rfl, archive⟩
    apply Machine.spec_mono (spec_onDesk sound (P := fun _ d => ∃ ledger,
      d = { w'.desk with ledger := ledger } ∧ Prepared w' action user nonce ledger) ?_)
    · rintro _ w'' - ⟨d, rfl, -, ledger, rfl, prepared⟩
      exact ⟨ledger, rfl, prepared⟩
    · apply Desk.spec_updateOrders (.refl _)
      intro _ ledger prepared
      have advances := foldlM_advances prepareOne_advances prepared
      refine ⟨(Moves.refl _).of_ledger advances, ledger, rfl, advances, ?_, ?_⟩
      · rw [same]
        exact archive
      · intro fresh
        obtain ⟨intents, ids, listed', carries, distinct, unused⟩ := fresh order
        obtain rfl : wires = intents := Json.arr.inj (listed.symm.trans listed')
        rw [same]
        refine (prepared_new carries (List.Nodup.of_map _ distinct) (fun id mem => ?_) prepared).1
        by_contra found
        obtain ⟨o, found⟩ := Option.ne_none_iff_exists'.mp found
        exact unused id mem o (.inl (mem_of_get found)) (by rw [cloid_of_get found])
  · rw [if_neg order]
    have none : orders action = [] := if_neg order
    refine Machine.spec_pure sound ⟨w.desk.ledger, rfl, .refl _, ?_, fun _ => ?_⟩
    · rw [none]
      exact fun _ mem => absurd mem List.not_mem_nil
    · rw [none]
      exact fun _ mem => absurd mem List.not_mem_nil

/-- The request is about to be sent: stored as prepared, under a new nonce, with a record for each
of its orders, and with client ids which were never sent. -/
structure Ready (r : Request) (w : Dispatcher) : Prop where
  pending : w.desk.pending = r.pending "prepared"
  nonce : ∀ e ∈ w.posted, e.1.nonce < r.nonce
  reserved : r.nonce ≤ w.lastNonce
  distinct : ((clientIds r.action).map asciiLower).Nodup
  new : ∀ id ∈ clientIds r.action, ∀ r' ∈ w.posted.map Prod.fst, ∀ id' ∈ clientIds r'.action,
    asciiLower id' ≠ asciiLower id
  sendable : ∀ o, w.desk.Holds o → o.Unsent → ∀ id ∈ clientIds r.action,
    asciiLower id ≠ asciiLower o.cloid
  recorded : ∀ intent ∈ orders r.action, ∃ id managed, intent.field "c" = .str id ∧
    w.desk.ledger.get id = some (preparedOrder r.user r.nonce managed id intent)
  complete : isOrder r.action → ∃ intents ids, r.action.field "orders" = .arr intents ∧
    Carries intents ids ∧ ids.Nodup

theorem Dispatcher.Sound.post (sound : w.Sound) (pending : w.desk.pending = r.pending "submitting")
    (nonce : ∀ e ∈ w.posted, e.1.nonce < r.nonce) (reserved : r.nonce ≤ w.lastNonce)
    (distinct : ((clientIds r.action).map asciiLower).Nodup)
    (new : ∀ id ∈ clientIds r.action, ∀ r' ∈ w.posted.map Prod.fst, ∀ id' ∈ clientIds r'.action,
      asciiLower id' ≠ asciiLower id)
    (sendable : ∀ o, w.desk.Holds o → o.Unsent → ∀ id ∈ clientIds r.action,
      asciiLower id ≠ asciiLower o.cloid)
    (recorded : ∀ intent ∈ orders r.action, ∃ id managed, intent.field "c" = .str id ∧
      w.desk.ledger.get id = some (preparedOrder r.user r.nonce managed id intent)) :
    Sound { w with posted := (r, w.desk) :: w.posted } where
  rising := List.pairwise_cons.mpr ⟨nonce, sound.rising⟩
  reserved := by
    intro e mem
    rcases List.mem_cons.mp mem with rfl | mem
    · exact reserved
    · exact sound.reserved e mem
  once := by
    rw [List.flatMap_cons, List.map_append, List.nodup_append]
    refine ⟨distinct, sound.once, ?_⟩
    intro low mem low' mem' same
    obtain ⟨id, named, rfl⟩ := List.mem_map.mp mem
    obtain ⟨id', named', rfl⟩ := List.mem_map.mp mem'
    obtain ⟨e, sent, named'⟩ := List.mem_flatMap.mp named'
    exact new id named e.1 (List.mem_map_of_mem sent) id' named' same.symm
  stored := by
    intro e mem
    rcases List.mem_cons.mp mem with rfl | mem
    · exact pending
    · exact sound.stored e mem
  consistent := by
    refine ⟨fun r' mem intent listed => ?_, fun o held unsent r' mem id named => ?_, ?_⟩
    · rcases List.mem_cons.mp mem with rfl | mem
      · obtain ⟨id, managed, named, found⟩ := recorded intent listed
        exact ⟨_, .inl (mem_of_get found), ⟨named, rfl, rfl, rfl⟩, .inr ⟨rfl, pending⟩⟩
      · exact sound.consistent.kept r' mem intent listed
    · rcases List.mem_cons.mp mem with rfl | mem
      · exact sendable o held unsent id named
      · exact sound.consistent.unsent o held unsent r' mem id named
    · intro id mem
      change id ∈ preparedIds w.desk.pending at mem
      rw [pending, preparedIds_submitting] at mem
      exact absurd mem List.not_mem_nil

theorem spec_finish (sound : w.Sound)
    (answers : Answers (w.posted.map Prod.fst) w.desk.Holds) :
    machine.spec Sound Store.finish (fun _ _ => True) w := by
  unfold Store.finish
  apply Machine.spec_bind
  apply spec_record sound
  exact spec_writePending sound (sound.consistent.clear answers) trivial

/-- Once an acknowledgement is taken, everything sent is answered. -/
theorem spec_acknowledge (sound : w.Sound)
    (pending : w.desk.pending = r.pending "submitting")
    (recorded : ∀ intent ∈ orders r.action, ∃ id managed, intent.field "c" = .str id ∧
      w.desk.ledger.get id = some (preparedOrder r.user r.nonce managed id intent))
    (complete : isOrder r.action → ∃ intents ids, r.action.field "orders" = .arr intents ∧
      Carries intents ids ∧ ids.Nodup) :
    machine.spec Sound (acknowledge r.action response)
      (fun _ w' => Sound w' ∧ Answers (w'.posted.map Prod.fst) w'.desk.Holds) w := by
  have others {w' : Dispatcher} (sound' : w'.Sound) (pending' : w'.desk.pending = w.desk.pending)
      (mine : ∀ intent ∈ orders r.action, ∃ o, w'.desk.Holds o ∧ r.Records intent o ∧ o.Answered) :
      Answers (w'.posted.map Prod.fst) w'.desk.Holds := by
    intro r' mem intent listed
    obtain ⟨o, held, recorded, answered | ⟨-, same⟩⟩ := sound'.consistent.kept r' mem intent listed
    · exact ⟨o, held, recorded, answered⟩
    · rw [pending', pending] at same
      obtain rfl := pending_injective same
      exact mine intent listed
  unfold acknowledge
  by_cases order : isOrder r.action
  · rw [if_pos order]
    obtain ⟨intents, ids, listed, carries, distinct⟩ := complete order
    have same : orders r.action = intents := by
      rw [orders, if_pos order, listed]
      rfl
    apply Machine.spec_mono (spec_onDesk sound (P := fun _ d => ∃ ledger,
      d = { w.desk with ledger := ledger } ∧ ∀ intent ∈ intents, ∃ o o',
        intent.field "c" = .str o.cloid ∧ w.desk.ledger.get o.cloid = some o ∧
          ledger.get o.cloid = some o' ∧ Succeeds o o' ∧ o'.Answered) ?_)
    · rintro _ w' sound' ⟨d, rfl, -, ledger, rfl, taken⟩
      refine ⟨sound', others sound' rfl fun intent mem => ?_⟩
      obtain ⟨o, o', named, found, after, succeeds, answered⟩ := taken intent (same ▸ mem)
      obtain ⟨id, managed, named', found'⟩ := recorded intent mem
      obtain rfl : o.cloid = id := Json.str.inj (named.symm.trans named')
      rw [found] at found'
      have before : o = preparedOrder r.user r.nonce managed o.cloid intent :=
        Option.some.inj found'
      refine ⟨o', .inl (mem_of_get after), ⟨?_, ?_, ?_, ?_⟩, answered⟩
      · rw [succeeds.cloid]
        exact named
      · rw [succeeds.wire, before]
        rfl
      · rw [succeeds.user, before]
        rfl
      · rw [succeeds.submittedMs, before]
        rfl
    · apply Desk.spec_updateOrders (.refl _)
      intro now ledger taken
      cases done : (acknowledged now r.action response w.desk.ledger).1 with
      | error failure =>
          rw [done] at taken
          cases taken
      | ok u =>
          rw [done] at taken
          cases taken
          obtain ⟨advances, each⟩ := acknowledged_answers order listed carries distinct done
          exact ⟨(Moves.refl _).of_ledger advances, _, rfl, each⟩
  · rw [if_neg order]
    refine Machine.spec_pure sound ⟨sound, others sound rfl fun intent mem => ?_⟩
    rw [orders, if_neg order] at mem
    cases mem

theorem spec_send (sound : w.Sound) (ready : Ready r w) :
    machine.spec Sound (Client.send r) (fun _ _ => True) w := by
  have consistent : Consistent (w.posted.map Prod.fst) w.desk.Holds (r.pending "submitting") := by
    apply sound.consistent.store
    · apply sound.consistent.answers
      intro r' _ _ same
      have state := congrArg (fun value : Json => (value.field "dispatch_state").asStr)
        (ready.pending.symm.trans same)
      rw [pending_state, pending_state] at state
      exact absurd (Option.some.inj state) (by decide)
    · rw [preparedIds_submitting]
      exact fun _ mem => absurd mem List.not_mem_nil
  have submitting : Sound { w with desk := { w.desk with pending := r.pending "submitting" } } :=
    sound.of_desk consistent
  have posted := submitting.post rfl ready.nonce ready.reserved ready.distinct ready.new
    ready.sendable ready.recorded
  unfold Client.send
  apply Machine.spec_bind
  apply spec_writePending sound consistent
  apply Machine.spec_bind
  apply spec_post submitting posted
  intro response
  apply Machine.spec_bind
  apply spec_lift posted
  intro _ _
  apply Machine.spec_bind
  apply Machine.spec_mono (spec_acknowledge posted rfl ready.recorded ready.complete)
  rintro _ w' - ⟨sound', answers⟩
  apply Machine.spec_bind
  apply Machine.spec_mono (spec_finish sound' answers)
  intro _ w'' sound'' _
  apply Machine.spec_bind
  apply spec_lift sound''
  intro _ _
  exact Machine.spec_pure sound'' trivial

/-- A request keeps everything stored in order, whatever happens to it. -/
theorem spec_exchange (sign : Json → Nat → Except Failure Json) (vault : Json) (user : String)
    (hedge : Option Json) (sound : w.Sound) :
    machine.spec Sound (Client.exchange sign vault user action hedge) (fun _ _ => True) w := by
  unfold Client.exchange
  apply Machine.spec_bind
  apply Machine.spec_mono (spec_validateNewIds sound)
  rintro _ w₀ - ⟨rfl, fresh⟩
  apply Machine.spec_bind
  apply spec_check sound
  apply Machine.spec_bind
  apply Machine.spec_mono (spec_quoteFresh sound)
  rintro _ w₁ - rfl
  apply Machine.spec_bind
  apply Machine.spec_mono (spec_nextNonce sound)
  rintro nonce w₂ sound₂ ⟨above, rfl⟩
  apply Machine.spec_bind
  apply spec_lift sound₂
  intro signature _
  apply Machine.spec_bind
  apply Machine.spec_mono (spec_begin sound₂ fresh)
  rintro _ w₃ sound₃ rfl
  apply Machine.spec_bind
  apply Machine.spec_mono (spec_writeHedge sound₃)
  rintro _ w₄ sound₄ ⟨pointer, rfl⟩
  apply Machine.spec_bind
  apply Machine.spec_mono (spec_prepare sound₄)
  rintro _ w₅ sound₅ ⟨ledger, rfl, prepared⟩
  apply Machine.spec_bind
  apply Machine.spec_mono (spec_quoteFresh sound₅)
  rintro _ w₆ - rfl
  apply spec_send sound₅
  refine ⟨rfl, fun e mem => (sound.reserved e mem).trans_lt above, le_rfl, fresh.distinct,
    sound.new_ids fresh.unused, ?_, prepared.new fresh, fun order => ?_⟩
  · rintro o held unsent id named same
    obtain ⟨old, before, -, cloid⟩ := prepared.advances.or.unsent o held unsent
    exact fresh.unused id named old before (cloid ▸ same.symm)
  · obtain ⟨intents, ids, listed, carries, distinct, -⟩ := fresh order
    exact ⟨intents, ids, listed, carries, List.Nodup.of_map _ distinct⟩

end Exchange

section Reconcile

variable {w : Dispatcher} {r : Request} {action pending : Json} {intents : List Json}
  {user coin : String} {nonce : Nat} {ids : List String} {id : String}

/-- Looking up an order which is only in the ledger finds its answer. -/
theorem answeredIn_of_settled {d d' : Desk} {intent : Json}
    (consistent : Consistent (w.posted.map Prod.fst) d'.Holds d'.pending)
    (mem : r ∈ w.posted.map Prod.fst) (listed : intent ∈ orders r.action)
    (named : intent.field "c" = .str id) (archive : d'.archive = d.archive)
    (hot : ∀ o ∈ d.archive, asciiLower o.cloid ≠ asciiLower id)
    (settled : Settled id d'.ledger) : r.AnsweredIn d'.Holds intent := by
  obtain ⟨o, held, recorded, known⟩ := consistent.kept r mem intent listed
  refine ⟨o, held, recorded, ?_⟩
  obtain rfl : o.cloid = id := Json.str.inj (recorded.cloid.symm.trans named)
  rcases held with held | held
  · rcases settled o (get_of_mem held) with terminal | answered
    · rcases known with answered | ⟨live, -⟩
      · exact answered
      · rw [terminal] at live
        cases live
    · exact answered
  · exact absurd rfl (hot o (archive ▸ held))

/-- Every order of the stored request is answered once all of them are looked up. -/
theorem spec_resolveAll (sound : w.Sound)
    (hot : ∀ intent ∈ intents, ∃ id, intent.field "c" = .str id ∧
      ∀ o ∈ w.desk.archive, asciiLower o.cloid ≠ asciiLower id) :
    machine.spec Sound (resolveAll user intents)
      (fun _ w' => ∃ d, w' = { w with desk := d } ∧ Moves w.desk d ∧
        d.archive = w.desk.archive ∧ ∀ r ∈ w.posted.map Prod.fst, ∀ intent ∈ intents,
          intent ∈ orders r.action → r.AnsweredIn d.Holds intent) w := by
  induction intents generalizing w with
  | nil =>
      refine Machine.spec_pure sound ⟨w.desk, rfl, .refl _, rfl, fun _ _ intent mem => ?_⟩
      exact absurd mem List.not_mem_nil
  | cons intent intents inductionHypothesis =>
      obtain ⟨id, named, archived⟩ := hot intent List.mem_cons_self
      unfold resolveAll
      apply Machine.spec_bind
      apply spec_lift sound
      intro id' same
      rw [clientId_eq_ok, named] at same
      cases same
      apply Machine.spec_bind
      apply Machine.spec_mono (spec_onDesk sound (spec_resolve_moves user id false w.desk))
      rintro status _ sound₁ ⟨d, rfl, moves, archive, settled⟩
      have hot' : ∀ intent' ∈ intents, ∃ id, intent'.field "c" = .str id ∧
          ∀ o ∈ d.archive, asciiLower o.cloid ≠ asciiLower id := by
        rw [archive]
        exact fun intent' mem => hot intent' (List.mem_cons_of_mem _ mem)
      apply Machine.spec_bind
      apply Machine.spec_mono (inductionHypothesis sound₁ hot')
      rintro rest _ sound₂ ⟨d', rfl, moves', archive', answered⟩
      apply Machine.spec_pure sound₂
      refine ⟨d', rfl, moves.trans moves', archive'.trans archive, ?_⟩
      intro r mem other taken listed
      rcases List.mem_cons.mp taken with rfl | taken
      · exact (answeredIn_of_settled sound₁.consistent mem listed named archive archived
          settled).advance moves'.records
      · exact answered r mem other taken listed

/-- The stored request is over once its own orders are answered. -/
theorem answers_of_stored (sound : w.Sound)
    (own : ∀ r ∈ w.posted.map Prod.fst, w.desk.pending = r.pending "submitting" →
      ∀ intent ∈ orders r.action, r.AnsweredIn w.desk.Holds intent) :
    Answers (w.posted.map Prod.fst) w.desk.Holds := by
  intro r mem intent listed
  obtain ⟨o, held, recorded, answered | ⟨-, same⟩⟩ := sound.consistent.kept r mem intent listed
  · exact ⟨o, held, recorded, answered⟩
  · exact own r mem same intent listed

theorem spec_reconcileOrder (sound : w.Sound)
    (stored : (w.desk.pending.field "request").field "action" = action) (order : isOrder action) :
    machine.spec Sound (reconcileOrder user action nonce) (fun _ _ => True) w := by
  unfold reconcileOrder
  apply Machine.spec_bind
  apply Machine.spec_mono (spec_prepare sound)
  rintro _ _ sound₁ ⟨ledger, rfl, prepared⟩
  apply Machine.spec_bind
  apply spec_lift sound₁
  intro intents listed
  rw [context_eq_ok, Json.asArray_eq_some] at listed
  have same : orders action = intents := by
    rw [orders, if_pos order, listed]
    rfl
  apply Machine.spec_bind
  apply Machine.spec_mono (spec_resolveAll sound₁ (same ▸ prepared.archive))
  rintro statuses _ sound₂ ⟨d, rfl, moves, -, answered⟩
  apply Machine.spec_bind
  have answers : Answers (w.posted.map Prod.fst) d.Holds := by
    apply answers_of_stored sound₂
    intro r mem pending intent taken
    have own : r.action = action := by
      rw [← stored, ← moves.pending, pending]
      rfl
    have listed' : intent ∈ intents := by
      rw [← same, ← own]
      exact taken
    exact answered r mem intent listed' taken
  apply Machine.spec_mono (spec_finish sound₂ answers)
  intro _ _ sound₃ _
  exact Machine.spec_pure sound₃ trivial

/-- Only orders which were never sent are given up. -/
theorem Consistent.retire {now : Nat} {requests : List Request} {d : Desk} {ledger : Ledger}
    (consistent : Consistent requests d.Holds d.pending) (listed : orders action = intents)
    (unsent : preparedIds d.pending = clientIds action)
    (retired : intents.foldlM (retireOne now) d.ledger = .ok ledger) :
    Consistent requests { d with ledger := ledger }.Holds d.pending where
  kept := by
    intro r mem intent sent
    obtain ⟨o, held, recorded, known⟩ := consistent.kept r mem intent sent
    refine ⟨o, ?_, recorded, known⟩
    rcases held with held | held
    · refine .inl ((retired_eq_ok retired o).2 held fun wire given named => ?_)
      have own : o.cloid ∈ clientIds action := mem_clientIds.mpr ⟨wire, listed ▸ given, named⟩
      exact consistent.prepared o.cloid (unsent ▸ own) r mem o.cloid
        (mem_clientIds.mpr ⟨intent, sent, recorded.cloid⟩) rfl
    · exact .inr held
  unsent := by
    intro o held given r mem id named
    rcases held with held | held
    · rcases (retired_eq_ok retired o).1 held with old | ⟨wire, listed', cloid⟩
      · exact consistent.unsent o (.inl old) given r mem id named
      · have own : o.cloid ∈ clientIds action := mem_clientIds.mpr ⟨wire, listed ▸ listed', cloid⟩
        exact consistent.prepared o.cloid (unsent ▸ own) r mem id named
    · exact consistent.unsent o (.inr held) given r mem id named
  prepared := consistent.prepared

theorem spec_retire (sound : w.Sound)
    (unsent : preparedIds w.desk.pending = clientIds action) :
    machine.spec Sound (retire action)
      (fun _ w' => w'.desk.pending = w.desk.pending ∧ w'.posted = w.posted) w := by
  unfold retire
  by_cases order : isOrder action
  · rw [if_pos order]
    have updated : Desk.machine.spec
        (fun d => Consistent (w.posted.map Prod.fst) d.Holds d.pending ∧
          d.pending = w.desk.pending)
        (Desk.call (.updateOrders fun now ledger => do
          let wires ← intents action "order intents"
          wires.foldlM (retireOne now) ledger)) (fun _ _ => True) w.desk := by
      apply Desk.spec_updateOrders ⟨sound.consistent, rfl⟩
      intro now ledger changed
      obtain ⟨wires, found, retired⟩ := bind_eq_ok.mp changed
      unfold Journal.intents at found
      rw [context_eq_ok, Json.asArray_eq_some] at found
      have listed : orders action = wires := by
        rw [orders, if_pos order, found]
        rfl
      exact ⟨⟨sound.consistent.retire listed unsent retired, rfl⟩, trivial⟩
    apply Machine.spec_mono (spec_embed (fun d both => sound.of_desk both.1) updated)
    rintro _ _ - ⟨d, rfl, ⟨-, pending⟩, -⟩
    exact ⟨pending, rfl⟩
  · rw [if_neg order]
    exact Machine.spec_pure sound ⟨rfl, rfl⟩

theorem spec_notSubmitted (sound : w.Sound)
    (unsent : preparedIds w.desk.pending = clientIds action) :
    machine.spec Sound (notSubmitted action)
      (fun _ w' => w'.desk.pending = w.desk.pending ∧ w'.posted = w.posted) w := by
  unfold notSubmitted
  apply Machine.spec_bind
  apply Machine.spec_mono (spec_retire sound unsent)
  rintro _ w₁ sound₁ ⟨pending, posted⟩
  apply Machine.spec_mono (@spec_writeHedge w₁ (some .null) sound₁)
  rintro _ _ - ⟨pointer, rfl⟩
  exact ⟨pending, posted⟩

theorem spec_reconcilePrepared (sound : w.Sound)
    (venue : (w.desk.pending.field "venue").asStr = some "hyperliquid")
    (state : (w.desk.pending.field "dispatch_state").asStr = some "prepared")
    (stored : (w.desk.pending.field "request").field "action" = action) :
    machine.spec Sound (reconcilePrepared user action nonce) (fun _ _ => True) w := by
  have unsent : preparedIds w.desk.pending = clientIds action := by
    rw [preparedIds, if_pos ⟨venue, state⟩, stored]
  unfold reconcilePrepared
  apply Machine.spec_bind
  apply Machine.spec_mono (spec_prepare sound)
  rintro _ _ sound₁ ⟨ledger, rfl, -⟩
  apply Machine.spec_bind
  apply Machine.spec_mono (spec_notSubmitted sound₁ unsent)
  rintro _ w₂ sound₂ ⟨pending, posted⟩
  apply Machine.spec_bind
  have answers : Answers (w₂.posted.map Prod.fst) w₂.desk.Holds := by
    apply answers_of_stored sound₂
    intro r _ same
    rw [← pending, same, pending_state] at state
    exact absurd (Option.some.inj state) (by decide)
  apply Machine.spec_mono (spec_finish sound₂ answers)
  intro _ _ sound₃ _
  exact Machine.spec_pure sound₃ trivial

theorem spec_reconcileEffect (sound : w.Sound)
    (stored : (w.desk.pending.field "request").field "action" = action) (other : ¬isOrder action) :
    machine.spec Sound (reconcileEffect user coin action) (fun _ _ => True) w := by
  have finish {w' : Dispatcher} (sound' : w'.Sound) (pending : w'.desk.pending = w.desk.pending)
      (answer : Json) :
      machine.spec Sound (do Store.finish; pure answer) (fun _ _ => True) w' := by
    have answers : Answers (w'.posted.map Prod.fst) w'.desk.Holds := by
      apply answers_of_stored sound'
      intro r _ same intent listed
      have own : r.action = action := by
        rw [← stored, ← pending, same]
        rfl
      rw [own, orders, if_neg other] at listed
      cases listed
    apply Machine.spec_bind
    apply Machine.spec_mono (spec_finish sound' answers)
    intro _ _ sound'' _
    exact Machine.spec_pure sound'' trivial
  unfold reconcileEffect
  dsimp only
  split_ifs
  · apply Machine.spec_bind
    apply Machine.spec_mono (spec_onDesk sound (P := fun _ d => d.pending = w.desk.pending) ?_)
    · rintro open_ _ sound₁ ⟨d, rfl, moves, -⟩
      apply Machine.spec_bind
      apply spec_lift sound₁
      intro _ _
      exact finish sound₁ moves.pending open_
    · apply Desk.spec_ask (.refl _)
      intro answer
      exact ⟨(Moves.refl _).of_holds (fun _ => Iff.rfl) rfl, rfl⟩
  · apply Machine.spec_bind
    apply spec_asset sound
    intro asset
    apply Machine.spec_bind
    apply spec_lift sound
    intro _ _
    apply Machine.spec_bind
    apply spec_activeAsset sound
    intro state
    apply Machine.spec_bind
    apply spec_lift sound
    intro _ _
    apply Machine.spec_bind
    apply spec_lift sound
    intro _ _
    exact finish sound rfl state
  · exact Machine.spec_throw sound

/-- What is stored is only forgotten once it is known what became of it. -/
theorem spec_reconcile (sound : w.Sound) :
    machine.spec Sound (reconcile user coin) (fun _ _ => True) w := by
  unfold reconcile
  apply Machine.spec_bind
  apply spec_readPending sound
  by_cases free : w.desk.pending.isNull = true
  · rw [if_pos free]
    exact Machine.spec_pure sound trivial
  · rw [if_neg free]
    unfold reconcileStored
    apply Machine.spec_bind
    apply spec_lift sound
    intro _ venue
    rw [ensure_eq_ok] at venue
    apply Machine.spec_bind
    apply spec_lift sound
    intro _ _
    by_cases state : (w.desk.pending.field "dispatch_state").asStr = some "prepared"
    · rw [if_pos state]
      apply Machine.spec_bind
      apply spec_lift sound
      intro nonce _
      exact spec_reconcilePrepared sound venue state rfl
    · rw [if_neg state]
      by_cases order : isOrder ((w.desk.pending.field "request").field "action")
      · rw [if_pos order]
        apply Machine.spec_bind
        apply spec_lift sound
        intro nonce _
        exact spec_reconcileOrder sound rfl order
      · rw [if_neg order]
        exact spec_reconcileEffect sound rfl order

end Reconcile

end LpMaker.Hyperliquid
