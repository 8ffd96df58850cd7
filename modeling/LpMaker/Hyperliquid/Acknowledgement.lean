import LpMaker.Hyperliquid.Journal

/-!
# Acknowledged orders

An acknowledgement updates every intent of its action from its own status entry, or nothing.
One shape of reply is not covered: a rejection whose status array is shorter than the batch is
indexed out of range.
-/

namespace LpMaker.Hyperliquid.Journal

variable {now : Nat} {action response : Json} {stored ledger result : Ledger} {items : List Json}
  {ids : List String} {k : Nat}

/-- The intents carry these client ids. -/
def Carries (items : List Json) (ids : List String) : Prop :=
  items.map (fun intent => intent.field "c") = ids.map Json.str

/-- A pending order action, as it is prepared: its client ids differ and are in the ledger. -/
def Pending (stored : Ledger) (action : Json) : Prop :=
  isOrder action → ∃ items ids, action.field "orders" = .arr items ∧ Carries items ids ∧
    ids.Nodup ∧ ∀ id ∈ ids, stored.get id ≠ none

/-- The record of an intent was updated from its own status entry. -/
def Updated (now : Nat) (response : Json) (stored result : Ledger) (intent : Json × Nat) : Prop :=
  ∃ id order ack said, intent.1.field "c" = .str id ∧ stored.get id = some order ∧
    ackAt response intent.2 = .ok ack ∧ acknowledgement response ack = .ok said ∧
    result.get id = some (Order.acknowledge now ack said order)

/-- An acknowledgement never panics, fails without an effect, leaves other actions alone and
updates every intent. -/
def TotalAndAtomic (now : Nat) (action response : Json) (stored : Ledger) : Prop :=
  (acknowledged now action response stored).1 ≠ .error .panicked ∧
    (∀ failure, (acknowledged now action response stored).1 = .error failure →
      (acknowledged now action response stored).2 = stored) ∧
    (¬isOrder action → acknowledged now action response stored = (.ok (), stored)) ∧
    ((acknowledged now action response stored).1 = .ok () → isOrder action →
      ∃ items, action.field "orders" = .arr items ∧ ∀ intent ∈ items.zipIdx,
        Updated now response stored (acknowledged now action response stored).2 intent)

/-- A rejection with fewer status entries than intents. -/
def ShortRejection (action response : Json) : Prop :=
  isOrder action ∧ isErr response ∧ ∃ items entries, action.field "orders" = .arr items ∧
    statuses response = some entries ∧ entries.length < items.length

section Steps

theorem acknowledgeOne_eq_ok {intent : Json × Nat} :
    acknowledgeOne now response ledger intent = .ok result ↔
      ∃ id order ack said, intent.1.field "c" = .str id ∧ ledger.get id = some order ∧
        ackAt response intent.2 = .ok ack ∧ acknowledgement response ack = .ok said ∧
        ledger.set (Order.acknowledge now ack said order) = result := by
  unfold acknowledgeOne clientId
  simp only [bind_eq_ok, context_eq_ok, Json.asStr_eq_some, pure_eq_ok]
  constructor
  · rintro ⟨id, named, order, found, ack, entry, said, reads, same⟩
    exact ⟨id, order, ack, said, named, found, entry, reads, same⟩
  · rintro ⟨id, order, ack, said, named, found, entry, reads, same⟩
    exact ⟨id, named, order, found, ack, entry, said, reads, same⟩

theorem ackAt_panics {index : Nat} :
    ackAt response index = .error .panicked ↔
      ∃ entries, statuses response = some entries ∧ entries.length ≤ index := by
  unfold ackAt
  cases statuses response with
  | none => simp
  | some entries => simp

/-- Only an index out of range stops the program. -/
theorem acknowledgeOne_panics {intent : Json × Nat}
    (stops : acknowledgeOne now response ledger intent = .error .panicked) :
    ackAt response intent.2 = .error .panicked := by
  unfold acknowledgeOne clientId at stops
  simp only [bind_eq_error, context_eq_error] at stops
  rcases stops with ⟨-, other⟩ | ⟨id, -, ⟨-, other⟩ | ⟨order, -, stops | ⟨ack, -, stops | stops⟩⟩⟩
  · cases other
  · cases other
  · exact stops
  · unfold acknowledgement at stops
    split_ifs at stops
    split at stops
    · cases stops
    · split at stops <;> cases stops
  · obtain ⟨_, -, impossible⟩ := stops
    cases impossible

theorem acknowledgement_of_isErr {ack : Json} (rejected : isErr response) :
    acknowledgement response ack = .ok ("rejected", true, none) := by
  unfold acknowledgement
  rw [if_pos (.inl rejected)]

end Steps

section Batches

/-- A batch whose entries are all in range does not stop the program. -/
theorem batch_of_inRange
    (inRange : ∀ index, k ≤ index → index < k + items.length →
      ackAt response index ≠ .error .panicked) :
    (items.zipIdx k).foldlM (acknowledgeOne now response) ledger ≠ .error .panicked := by
  induction items generalizing k ledger with
  | nil => exact nofun
  | cons intent items inductionHypothesis =>
      rw [List.length_cons] at inRange
      rw [List.zipIdx_cons, List.foldlM_cons]
      intro stops
      rcases bind_eq_error.mp stops with here | ⟨next, -, later⟩
      · exact inRange k (Nat.le_refl k) (by omega) (acknowledgeOne_panics here)
      · refine inductionHypothesis ?_ later
        intro index above below
        exact inRange index (by omega) (by omega)

/-- A rejection with too few entries stops the program once they are used up. -/
theorem batch_of_short {entries : List Json} (rejected : isErr response)
    (listed : statuses response = some entries) (carries : Carries items ids)
    (known : ∀ id ∈ ids, ledger.get id ≠ none) (start : k ≤ entries.length)
    (short : entries.length < k + items.length) :
    (items.zipIdx k).foldlM (acknowledgeOne now response) ledger = .error .panicked := by
  induction items generalizing k ledger ids with
  | nil =>
      rw [List.length_nil] at short
      omega
  | cons intent items inductionHypothesis =>
      rw [List.length_cons] at short
      cases ids with
      | nil => cases carries
      | cons id ids =>
          unfold Carries at carries
          rw [List.map_cons, List.map_cons, List.cons.injEq] at carries
          obtain ⟨order, found⟩ := Option.ne_none_iff_exists'.mp (known id List.mem_cons_self)
          rw [List.zipIdx_cons, List.foldlM_cons, bind_eq_error]
          rcases Nat.lt_or_eq_of_le start with inside | used
          · -- an entry is left: the intent is rejected and the next one is taken
            have entry : ackAt response k = .ok entries[k] := by
              unfold ackAt
              rw [listed]
              dsimp only
              rw [List.getElem?_eq_getElem inside]
              rfl
            have same := Ledger.cloid_of_get found
            refine .inr ⟨_, acknowledgeOne_eq_ok.mpr
              ⟨id, order, _, _, carries.1, found, entry, acknowledgement_of_isErr rejected, rfl⟩, ?_⟩
            refine inductionHypothesis carries.2 ?_ inside (by omega)
            intro other mem
            by_cases here : other = id
            · have stored : ledger.get order.cloid = some order := same.symm ▸ found
              have updated : (ledger.set (Order.acknowledge now entries[k] ("rejected", true, none)
                  order)).get order.cloid = some _ := Ledger.get_set_same stored
              rw [here, ← same]
              exact fun missing => nomatch updated.symm.trans missing
            · have different : other ≠
                  (Order.acknowledge now entries[k] ("rejected", true, none) order).cloid :=
                fun equal => here (equal.trans same)
              rw [Ledger.get_set_other different]
              exact known other (List.mem_cons_of_mem _ mem)
          · left
            have missing : ackAt response k = .error .panicked :=
              ackAt_panics.mpr ⟨entries, listed, Nat.le_of_eq used.symm⟩
            unfold acknowledgeOne clientId
            simp only [bind_eq_error, context_eq_ok, Json.asStr_eq_some]
            exact .inr ⟨id, carries.1, .inr ⟨order, found, .inl missing⟩⟩

/-- A batch that is acknowledged updates each of its intents from its own entry, and nothing
else. -/
theorem batch_updates (carries : Carries items ids) (distinct : ids.Nodup)
    (done : (items.zipIdx k).foldlM (acknowledgeOne now response) ledger = .ok result) :
    (∀ intent ∈ items.zipIdx k, Updated now response ledger result intent) ∧
      ∀ id, id ∉ ids → result.get id = ledger.get id := by
  induction items generalizing k ledger ids with
  | nil =>
      cases done
      exact ⟨nofun, fun _ _ => rfl⟩
  | cons intent items inductionHypothesis =>
      cases ids with
      | nil => cases carries
      | cons id ids =>
          unfold Carries at carries
          rw [List.map_cons, List.map_cons, List.cons.injEq] at carries
          rw [List.nodup_cons] at distinct
          rw [List.zipIdx_cons, List.foldlM_cons, bind_eq_ok] at done
          obtain ⟨next, here, later⟩ := done
          obtain ⟨id', order, ack, said, named, found, entry, reads, rfl⟩ :=
            acknowledgeOne_eq_ok.mp here
          obtain rfl : id = id' := Json.str.inj (carries.1.symm.trans named)
          have same := Ledger.cloid_of_get found
          have stored : ledger.get order.cloid = some order := same.symm ▸ found
          have updated : (ledger.set (Order.acknowledge now ack said order)).get order.cloid =
              some (Order.acknowledge now ack said order) := Ledger.get_set_same stored
          obtain ⟨rest, others⟩ := inductionHypothesis carries.2 distinct.2 later
          constructor
          · intro taken mem
            rcases List.mem_cons.mp mem with rfl | mem
            · refine ⟨id, order, ack, said, named, found, entry, reads, ?_⟩
              rw [others id distinct.1, ← same]
              exact updated
            · obtain ⟨other, old, otherAck, otherSaid, otherNamed, stored, rest⟩ := rest taken mem
              have member : other ∈ ids := by
                have carried : taken.1.field "c" ∈ ids.map Json.str := by
                  rw [← carries.2]
                  exact List.mem_map_of_mem (List.fst_mem_of_mem_zipIdx mem)
                rw [otherNamed] at carried
                obtain ⟨_, mem, equal⟩ := List.mem_map.mp carried
                exact Json.str.inj equal ▸ mem
              have different : other ≠ (Order.acknowledge now ack said order).cloid := by
                intro equal
                exact distinct.1 ((equal.trans same) ▸ member)
              rw [Ledger.get_set_other different] at stored
              exact ⟨other, old, otherAck, otherSaid, otherNamed, stored, rest⟩
          · intro other absent
            rw [List.mem_cons, not_or] at absent
            have different : other ≠ (Order.acknowledge now ack said order).cloid :=
              fun equal => absent.1 (equal.trans same)
            rw [others other absent.2, Ledger.get_set_other different]

end Batches

section Outcomes

theorem TotalAndAtomic.of_error {failure : Failure}
    (acted : acknowledged now action response stored = (.error failure, stored))
    (ordinary : failure ≠ .panicked) (order : isOrder action) :
    TotalAndAtomic now action response stored := by
  unfold TotalAndAtomic
  rw [acted]
  refine ⟨?_, fun _ _ => rfl, fun other => absurd order other, ?_⟩
  · intro same
    exact ordinary (Except.error.inj same)
  · intro done
    cases done

theorem TotalAndAtomic.of_ok (acted : acknowledged now action response stored = (.ok (), result))
    (order : isOrder action) (listed : action.field "orders" = .arr items)
    (updated : ∀ intent ∈ items.zipIdx, Updated now response stored result intent) :
    TotalAndAtomic now action response stored := by
  unfold TotalAndAtomic
  rw [acted]
  refine ⟨?_, ?_, fun other => absurd order other, fun _ _ => ⟨items, listed, updated⟩⟩
  · intro failed
    cases failed
  · intro failure failed
    cases failed

end Outcomes

/-- Exactly a rejection with fewer entries than intents is not acknowledged as a whole. -/
theorem acknowledged_iff (pending : Pending stored action) :
    TotalAndAtomic now action response stored ↔ ¬ShortRejection action response := by
  constructor
  · rintro ⟨total, -, -, -⟩ ⟨order, rejected, items, entries, listed, known, short⟩
    obtain ⟨items', ids, listed', carries, -, present⟩ := pending order
    obtain rfl : items = items' := Json.arr.inj (listed.symm.trans listed')
    apply total
    unfold acknowledged intents update
    rw [if_pos order, listed]
    dsimp only [Json.asArray, context]
    rw [if_pos (.inl rejected), batch_of_short rejected known carries present (Nat.zero_le _)
      (by omega)]
  · intro enough
    by_cases order : isOrder action
    · obtain ⟨items, ids, listed, carries, distinct, -⟩ := pending order
      have acted : acknowledged now action response stored =
          if isErr response ∨ (statuses response).any fun entries => entries.length = items.length
          then update (items.zipIdx.foldlM (acknowledgeOne now response)) stored
          else (.error (.other "order acknowledgement incomplete; pending retained"), stored) := by
        unfold acknowledged intents
        rw [if_pos order, listed]
        rfl
      have inRange : isErr response ∨
          (statuses response).any (fun entries => entries.length = items.length) = true →
          ∀ index, 0 ≤ index → index < 0 + items.length →
            ackAt response index ≠ .error .panicked := by
        intro complete index _ below stops
        obtain ⟨entries, known, used⟩ := ackAt_panics.mp stops
        rcases complete with rejected | equal
        · exact enough ⟨order, rejected, items, entries, listed, known, by omega⟩
        · rw [known, Option.any_some, decide_eq_true_eq] at equal
          omega
      by_cases complete : isErr response ∨
          (statuses response).any (fun entries => entries.length = items.length) = true
      · rw [if_pos complete] at acted
        have stops : items.zipIdx.foldlM (acknowledgeOne now response) stored ≠ .error .panicked :=
          batch_of_inRange (inRange complete)
        cases done : items.zipIdx.foldlM (acknowledgeOne now response) stored with
        | error failure =>
            rw [update_of_error done] at acted
            exact .of_error acted (fun same => stops (done.trans (congrArg _ same))) order
        | ok result =>
            rw [update_of_ok done] at acted
            exact .of_ok acted order listed (batch_updates carries distinct done).1
      · rw [if_neg complete] at acted
        exact .of_error acted nofun order
    · have skipped : acknowledged now action response stored = (.ok (), stored) := if_neg order
      unfold TotalAndAtomic
      rw [skipped]
      refine ⟨?_, ?_, fun _ => rfl, fun _ other => absurd other order⟩
      · intro failed
        cases failed
      · intro failure failed
        cases failed

end LpMaker.Hyperliquid.Journal

namespace LpMaker.Shipped

open Hyperliquid Journal

/-- A prepared order of the hedge. -/
def preparedOrder : Hyperliquid.Order where
  cloid := "0x00000000000000000000000000000001"
  oid := none
  user := "0xuser"
  managedHedge := true
  submittedMs := 1
  observedMs := 0
  wire := .null
  status := "prepared"
  terminal := false
  exchange := .null

def preparedLedger : Ledger := ⟨[preparedOrder], by simp⟩

def orderAction : Json :=
  .obj [("type", .str "order"),
    ("orders", .arr [.obj [("c", .str "0x00000000000000000000000000000001")]])]

/-- A response with a list of status entries. -/
def withStatuses (status : String) (entries : List Json) : Json :=
  .obj [("status", .str status),
    ("response", .obj [("data", .obj [("statuses", .arr entries)])])]

theorem orderAction_pending : Pending preparedLedger orderAction := by
  intro _
  refine ⟨_, ["0x00000000000000000000000000000001"], rfl, rfl, by simp, ?_⟩
  intro id mem
  rw [List.mem_singleton.mp mem]
  exact nofun

/-- A rejection with an empty status array stops the program. -/
theorem rejection_panics :
    Pending preparedLedger orderAction ∧
      ¬TotalAndAtomic 2 orderAction (withStatuses "err" []) preparedLedger := by
  refine ⟨orderAction_pending, ?_⟩
  rintro ⟨total, -⟩
  exact total rfl

/-- A resting order is acknowledged. -/
theorem resting_acknowledged :
    TotalAndAtomic 2 orderAction
      (withStatuses "ok" [.obj [("resting", .obj [("oid", .nat 7)])]]) preparedLedger := by
  rw [acknowledged_iff orderAction_pending]
  rintro ⟨-, rejected, -⟩
  revert rejected
  decide

end LpMaker.Shipped
