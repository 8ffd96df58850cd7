import Mathlib
import LpMaker.Monitor.Performance
import LpMaker.Semantics.Trace

/-!
# The invariant of the performance history

Every call of `observe`, also one that fails, leaves a history which `validate` accepts.
-/

namespace LpMaker.Performance

variable {F : Type} [F64 F] {h : Holding F} {history : History F} {s old sample : Sample F}
  {samples : List (Sample F)}

section Validation

/-- The samples of a holding continue each other. -/
structure Contiguous (samples : List (Sample F)) : Prop where
  valid : ∀ s ∈ samples, s.Valid
  chain : samples.IsChain Sample.Follows

theorem checkSamples_eq_ok {previous : Option (Sample F)} {u : Unit} :
    checkSamples previous samples = .ok u ↔
      (∀ s ∈ samples, s.Valid) ∧ (previous.toList ++ samples).IsChain Sample.Follows := by
  induction samples generalizing previous with
  | nil => cases previous <;> simp [checkSamples]
  | cons s rest inductionHypothesis =>
      rw [checkSamples, check_bind_eq_ok, ensure_eq_ok, check_bind_eq_ok, ensure_eq_ok,
        inductionHypothesis, List.forall_mem_cons]
      cases previous with
      | none =>
          simp only [Option.toList, List.nil_append, List.cons_append]
          tauto
      | some p =>
          simp only [Option.toList, List.nil_append, List.cons_append, List.isChain_cons_cons,
            Option.mem_some_iff, forall_eq']
          tauto

/-- What `validate` checks of a holding. -/
structure Holding.Sound (h : Holding F) : Prop where
  since_pos : 0 < h.sinceMs
  bound : h.samples.length ≤ sampleBound
  contiguous : Contiguous h.samples

theorem Holding.validate_eq_ok {u : Unit} : h.validate = .ok u ↔ h.Sound := by
  unfold validate
  rw [check_bind_eq_ok, ensure_eq_ok, checkSamples_eq_ok]
  exact ⟨fun ⟨⟨since, bound⟩, valid, chain⟩ => ⟨since, bound, valid, chain⟩,
    fun ⟨since, bound, valid, chain⟩ => ⟨⟨since, bound⟩, valid, chain⟩⟩

theorem History.validate_eq_ok {u : Unit} : history.validate = .ok u ↔
    ∀ id h, history.positions.lookup id = some h → h.Sound := by
  unfold validate
  rw [List.forM_eq_forM, forM_eq_ok]
  constructor
  · intro valid id h found
    exact Holding.validate_eq_ok.mp (valid ⟨id, h⟩ (AList.mem_lookup_iff.mp found))
  · intro sound entry mem
    exact Holding.validate_eq_ok.mpr (sound entry.1 entry.2 (AList.mem_lookup_iff.mpr mem))

end Validation

section Pruning

/-- Increasing whole seconds in an interval are no more than its length. -/
theorem length_le_of_seconds {times : List Nat} {low high : Nat}
    (increasing : times.Pairwise (· < ·)) (seconds : ∀ t ∈ times, 1000 ∣ t)
    (bounds : ∀ t ∈ times, low < t ∧ t ≤ high) :
    times.length ≤ high / 1000 - low / 1000 := by
  have distinct : (times.map (· / 1000)).Nodup := by
    rw [List.Nodup, List.pairwise_map]
    refine increasing.imp_of_mem fun {a b} left right less => ?_
    have first := seconds a left
    have second := seconds b right
    omega
  have inside : (times.map (· / 1000)).toFinset ⊆ Finset.Ioc (low / 1000) (high / 1000) := by
    intro q mem
    obtain ⟨t, member, rfl⟩ := List.mem_map.mp (List.mem_toFinset.mp mem)
    have whole := seconds t member
    have between := bounds t member
    rw [Finset.mem_Ioc]
    omega
  have count := Finset.card_le_card inside
  rwa [List.toFinset_card_of_nodup distinct, List.length_map, Nat.card_Ioc] at count

omit [F64 F] in
theorem prune_suffix (cutoff : Nat) (samples : List (Sample F)) :
    Holding.prune cutoff samples <:+ samples := by
  induction samples with
  | nil => exact List.suffix_rfl
  | cons first rest inductionHypothesis =>
      match rest with
      | [] => exact List.suffix_rfl
      | [_] => exact List.suffix_rfl
      | second :: third :: rest =>
          rw [Holding.prune]
          split_ifs
          · exact inductionHypothesis.trans (List.suffix_cons _ _)
          · exact List.suffix_rfl

omit [F64 F] in
/-- Behind its first sample a pruned list is short or recent. -/
theorem prune_recent (cutoff : Nat) (samples : List (Sample F)) :
    (Holding.prune cutoff samples).length ≤ 2 ∨
      ∃ first second rest, Holding.prune cutoff samples = first :: second :: rest ∧
        cutoff < second.timeMs := by
  induction samples with
  | nil => exact .inl (Nat.zero_le 2)
  | cons first rest inductionHypothesis =>
      match rest with
      | [] => exact .inl (Nat.le_succ 1)
      | [_] => exact .inl (le_refl 2)
      | second :: third :: rest =>
          rw [Holding.prune]
          split_ifs with old
          · exact inductionHypothesis
          · exact .inr ⟨first, second, third :: rest, rfl, not_le.mp old⟩

theorem Contiguous.suffix {shorter : List (Sample F)} (contiguous : Contiguous samples)
    (suffix : shorter <:+ samples) : Contiguous shorter :=
  ⟨fun s mem => contiguous.valid s (suffix.subset mem), contiguous.chain.suffix suffix⟩

theorem Contiguous.times (contiguous : Contiguous samples) :
    (samples.map Sample.timeMs).Pairwise (· < ·) := by
  rw [← List.isChain_iff_pairwise, List.isChain_map]
  exact contiguous.chain.imp fun _ _ follows => follows.1

theorem Contiguous.blocks (contiguous : Contiguous samples) :
    (samples.map Sample.block).Pairwise (· < ·) := by
  rw [← List.isChain_iff_pairwise, List.isChain_map]
  exact contiguous.chain.imp fun _ _ follows => follows.2.1

/-- Of increasing whole seconds up to `time`, pruning keeps those of the window and one more. -/
theorem prune_length {time : Nat} (contiguous : Contiguous samples)
    (seconds : ∀ s ∈ samples, 1000 ∣ s.timeMs) (whole : 1000 ∣ time)
    (last : ∀ s ∈ samples, s.timeMs ≤ time) :
    (Holding.prune (time - windowMs) samples).length ≤ sampleBound := by
  have suffix := prune_suffix (time - windowMs) samples
  rcases prune_recent (time - windowMs) samples with short | ⟨first, second, rest, kept, recent⟩
  · exact short.trans (by decide)
  · rw [kept] at suffix ⊢
    have increasing := ((contiguous.suffix suffix).suffix (List.suffix_cons _ _)).times
    have member (s : Sample F) (mem : s ∈ second :: rest) : s ∈ samples :=
      suffix.subset (List.mem_cons_of_mem _ mem)
    have count := @length_le_of_seconds _ (time - windowMs) time increasing
      (fun t mem => by
        obtain ⟨s, inside, rfl⟩ := List.mem_map.mp mem
        exact seconds s (member s inside))
      (fun t mem => by
        obtain ⟨s, inside, rfl⟩ := List.mem_map.mp mem
        refine ⟨?_, last s (member s inside)⟩
        rcases List.mem_cons.mp inside with rfl | later
        · exact recent
        · rw [List.map_cons, List.pairwise_cons] at increasing
          exact recent.trans (increasing.1 _ (List.mem_map_of_mem later)))
    rw [List.length_map] at count
    rw [List.length_cons]
    unfold sampleBound
    unfold windowMs at count
    omega

end Pruning

section Record

/-- The invariant of a holding: `validate` accepts it, and its times are whole seconds. -/
structure Holding.Kept (h : Holding F) : Prop where
  sound : h.Sound
  seconds : ∀ s ∈ h.samples, 1000 ∣ s.timeMs

/-- A sample which is added at the end of others. -/
theorem Holding.push_kept (since : 0 < h.sinceMs) (contiguous : Contiguous (h.samples ++ [sample]))
    (seconds : ∀ s ∈ h.samples ++ [sample], 1000 ∣ s.timeMs) : (h.push sample).Kept := by
  have suffix := prune_suffix (sample.timeMs - windowMs) (h.samples ++ [sample])
  have last : ∀ s ∈ h.samples ++ [sample], s.timeMs ≤ sample.timeMs := by
    intro s mem
    have increasing := contiguous.times
    rw [List.map_append, List.pairwise_append] at increasing
    rcases List.mem_append.mp mem with earlier | here
    · exact (increasing.2.2 _ (List.mem_map_of_mem earlier) sample.timeMs
        (List.mem_singleton_self _)).le
    · rw [List.mem_singleton.mp here]
  have whole := seconds sample (List.mem_append_right _ (List.mem_singleton_self _))
  exact ⟨⟨since, prune_length contiguous seconds whole last, contiguous.suffix suffix⟩,
    fun s mem => seconds s (suffix.subset mem)⟩

theorem Holding.resetReason?_eq_none {maxGapMs : Nat}
    (continues : resetReason? maxGapMs old sample = none) : old.Follows sample := by
  unfold resetReason? at continues
  split_ifs at continues with chain gap revision fees
  push Not at chain revision fees
  exact ⟨chain.1, chain.2, revision, fees.1, fees.2⟩

/-- A recorded sample keeps the invariant. -/
theorem Holding.record_kept {maxGapMs : Nat} (kept : h.Kept) (valid : sample.Valid)
    (whole : 1000 ∣ sample.timeMs) : (h.record maxGapMs sample).Kept := by
  have since := kept.sound.since_pos
  have alone : Contiguous ([] ++ [sample]) := ⟨by simpa using valid, List.isChain_singleton _⟩
  have wholeAlone : ∀ s ∈ [] ++ [sample], 1000 ∣ s.timeMs := by simpa using whole
  unfold record
  cases last : h.samples.getLast? with
  | none =>
      have none := List.getLast?_eq_none_iff.mp last
      exact push_kept since (none ▸ alone) (none ▸ wholeAlone)
  | some old =>
      dsimp only
      split_ifs with repeated
      · exact kept
      · cases reset : resetReason? maxGapMs old sample with
        | some reason => exact push_kept since alone wholeAlone
        | none =>
            refine push_kept since ⟨?_, ?_⟩ ?_
            · simpa [or_imp, forall_and] using ⟨kept.sound.contiguous.valid, valid⟩
            · rw [List.isChain_append]
              refine ⟨kept.sound.contiguous.chain, List.isChain_singleton _, ?_⟩
              intro x isLast y isFirst
              obtain rfl : old = x := Option.some_inj.mp (last.symm.trans isLast)
              obtain rfl : sample = y := Option.some_inj.mp isFirst
              exact resetReason?_eq_none reset
            · simpa [or_imp, forall_and] using ⟨kept.seconds, whole⟩

omit [F64 F] in
@[simp] theorem Holding.backdate_samples (start : Option Nat) :
    (h.backdate start).samples = h.samples := by
  unfold backdate
  split <;> rfl

theorem Holding.backdate_kept {start : Option Nat} (positive : ∀ t ∈ start, 0 < t)
    (kept : h.Kept) : (h.backdate start).Kept := by
  unfold backdate
  split
  · next t earlier =>
      have since := positive t (Option.filter_eq_some_iff.mp earlier).1
      exact ⟨⟨since, kept.sound.bound, kept.sound.contiguous⟩, kept.seconds⟩
  · exact kept

theorem Holding.opened_kept {start : Option Nat} {time : Nat} (positive : ∀ t ∈ start, 0 < t)
    (now : 0 < time) : (opened start time : Holding F).Kept := by
  have since : 0 < start.getD time := by
    cases start with
    | none => exact now
    | some t => exact positive t rfl
  exact ⟨⟨since, Nat.zero_le _, ⟨fun _ mem => absurd mem List.not_mem_nil, .nil⟩⟩,
    fun _ mem => absurd mem List.not_mem_nil⟩

end Record

section Positions

variable {positions : Holdings F} {id : String} {h' : Holding F}

omit [F64 F] in
theorem lookup_mapHoldings {f : Holding F → Holding F} :
    (Holdings.mapHoldings f positions).lookup id = (positions.lookup id).map f :=
  List.dlookup_map₂ (f := fun _ => f) id

omit [F64 F] in
theorem lookup_retain {ids : List String}
    (found : (Holdings.retain ids positions).lookup id = some h) : positions.lookup id = some h :=
  AList.mem_lookup_iff.mpr (List.mem_of_mem_filter (AList.mem_lookup_iff.mp found))

omit [F64 F] in
/-- Before the loop a holding stays, or its samples are forgotten. -/
theorem lookup_enter {identity snapshot : Json}
    (found : ((history.adopt identity).reorganize snapshot).positions.lookup id = some h') :
    ∃ h, history.positions.lookup id = some h ∧
      (h' = h ∨ h' = { h with samples := [], resetReason := some "chain_changed" }) := by
  have adopted {h : Holding F} (found : (history.adopt identity).positions.lookup id = some h) :
      history.positions.lookup id = some h := by
    unfold History.adopt at found
    split_ifs at found with other
    · rw [AList.lookup_empty] at found
      cases found
    · exact found
  unfold History.reorganize at found
  split_ifs at found with changed
  · rw [lookup_mapHoldings, Option.map_eq_some_iff] at found
    obtain ⟨h, before, rfl⟩ := found
    exact ⟨h, adopted before, .inr rfl⟩
  · exact ⟨h', adopted found, .inl rfl⟩

end Positions

section Steps

variable {asF64 : Json → Option F} {call : Call} {id : String} {h' : Holding F}
  {reading : Reading F} {pass : Pass F} {ids : List String} {p : Json} {ps : List Json}

theorem finite_eq_ok {v : Json} {n : F} (read : finite asF64 v = .ok n) :
    F64.isFinite n = true ∧ n ≥ 0 := by
  unfold finite at read
  simp only [bind_eq_ok, context_eq_ok, ensure_eq_ok, pure_eq_ok] at read
  obtain ⟨_, _, _, valid, rfl⟩ := read
  exact valid

/-- What a read sample is. -/
structure IsSample (reading : Reading F) (p : Json) (sample : Sample F) : Prop where
  time : sample.timeMs = reading.time
  block : sample.block = reading.block
  hash : sample.blockHash = reading.hash
  revision : p.field "accounting_revision" = .str sample.revision
  values : ∀ v ∈ [sample.feeBase, sample.feeQuote, sample.principalQuote],
    F64.isFinite v ∧ v ≥ 0

theorem readSample_eq_ok (read : readSample asF64 reading ids p = .ok (id, sample)) :
    id ∉ ids ∧ IsSample reading p sample := by
  unfold readSample at read
  simp only [bind_eq_ok, context_eq_ok, ensure_eq_ok, pure_eq_ok, Json.asStr_eq_some,
    Prod.mk.injEq] at read
  obtain ⟨_, _, _, fresh, _, revision, _, base, _, quote, _, principal, rfl, rfl⟩ := read
  refine ⟨fresh, rfl, rfl, rfl, revision, ?_⟩
  simpa using ⟨finite_eq_ok base, finite_eq_ok quote, finite_eq_ok principal⟩

/-- What the loop does to a holding: nothing, or it records one sample. -/
inductive Touched (reading : Reading F) (ps : List Json) (before : Option (Holding F)) :
    Option (Holding F) → Prop where
  | kept : Touched reading ps before before
  | recorded {p : Json} {sample : Sample F} {start : Option Nat} (mem : p ∈ ps)
      (read : IsSample reading p sample) (positive : ∀ t ∈ start, 0 < t) :
      Touched reading ps before (some
        (((before.getD (.opened start reading.time)).backdate start).record
          reading.maxGapMs sample))

theorem Touched.cons {before after : Option (Holding F)} (touched : Touched reading ps before after) :
    Touched reading (p :: ps) before after := by
  cases touched with
  | kept => exact .kept
  | recorded mem read positive => exact .recorded (List.mem_cons_of_mem _ mem) read positive

/-- A holding of regular samples keeps the invariant in the loop. -/
theorem Touched.invariant {before : Option (Holding F)}
    (touched : Touched reading ps before (some h)) (now : 0 < reading.time)
    (whole : 1000 ∣ reading.time) (hash : reading.hash ≠ "")
    (revision : ∀ p ∈ ps, p.field "accounting_revision" ≠ .str "")
    (kept : ∀ h, before = some h → h.Kept) : h.Kept := by
  generalize after_eq : some h = after at touched
  cases touched with
  | kept => exact kept h after_eq.symm
  | @recorded p sample start mem read positive =>
      obtain rfl := Option.some_inj.mp after_eq
      have valid : sample.Valid := by
        refine ⟨read.time ▸ now, read.hash ▸ hash, fun empty => ?_, read.values⟩
        exact revision p mem (empty ▸ read.revision)
      refine Holding.record_kept (Holding.backdate_kept positive ?_) valid (read.time ▸ whole)
      cases before with
      | none => exact Holding.opened_kept positive now
      | some h => exact kept h rfl

/-- Every holding is recorded at most once, and not after its id was seen. -/
theorem observePositions_lookup :
    (id ∈ pass.ids → (observePositions asF64 reading ps pass).1.history.positions.lookup id =
        pass.history.positions.lookup id) ∧
      Touched reading ps (pass.history.positions.lookup id)
        ((observePositions asF64 reading ps pass).1.history.positions.lookup id) := by
  induction ps generalizing pass with
  | nil => exact ⟨fun _ => rfl, .kept⟩
  | cons p ps inductionHypothesis =>
      rw [observePositions]
      cases read : readSample asF64 reading pass.ids p with
      | error failure => exact ⟨fun _ => rfl, .kept⟩
      | ok named =>
          obtain ⟨name, sample⟩ := named
          obtain ⟨fresh, isSample⟩ := readSample_eq_ok read
          obtain ⟨seen, touched⟩ := @inductionHypothesis (pass.record reading name sample)
          by_cases here : id = name
          · subst here
            refine ⟨fun mem => absurd mem fresh, ?_⟩
            rw [seen List.mem_cons_self]
            dsimp only [Pass.record]
            rw [AList.lookup_insert]
            refine .recorded List.mem_cons_self isSample fun t filtered => ?_
            obtain ⟨found, -⟩ := Option.filter_eq_some_iff.mp filtered
            unfold Starts.get at found
            simp only [Option.bind_eq_bind, Option.bind_eq_some_iff] at found
            obtain ⟨_, _, _, _, stored⟩ := found
            exact reading.starts.positive _ _ stored
          · have other : (pass.record reading name sample).history.positions.lookup id =
                pass.history.positions.lookup id := AList.lookup_insert_ne here
            rw [other] at seen touched
            exact ⟨fun mem => seen (List.mem_cons_of_mem _ mem), touched.cons⟩

/-- Where a holding after a call comes from. -/
inductive Origin (asF64 : Json → Option F) (call : Call) (history : History F) (id : String) :
    Holding F → Prop where
  | kept {h : Holding F} (found : history.positions.lookup id = some h) :
      Origin asF64 call history id h
  | entered {h : Holding F}
      (found : ((history.adopt (call.snapshot.field "accounting_identity")).reorganize
        call.snapshot).positions.lookup id = some h) : Origin asF64 call history id h
  | recorded {h : Holding F} {reading : Reading F} {ps : List Json} (now : 0 < reading.time)
      (time : (call.snapshot.field "pool").field "time_ms" = .nat reading.time)
      (block : (call.snapshot.field "pool").field "block" = .nat reading.block)
      (hash : (call.snapshot.field "pool").field "block_hash" = .str reading.hash)
      (positions : call.snapshot.field "positions" = .arr ps)
      (touched : Touched reading ps
        (((history.adopt (call.snapshot.field "accounting_identity")).reorganize
          call.snapshot).positions.lookup id) (some h)) : Origin asF64 call history id h

/-- Every holding after a call has an origin. -/
theorem observe_origin (found : (observe asF64 call history).1.positions.lookup id = some h) :
    Origin asF64 call history id h := by
  unfold observe at found
  dsimp only at found
  split_ifs at found with skipped
  · exact .kept found
  · cases header : readHeader asF64 call with
    | error failure =>
        rw [header] at found
        exact .kept found
    | ok read =>
        obtain ⟨_, _, _⟩ := read
        rw [header] at found
        dsimp only at found
        unfold readHeader at header
        simp only [bind_eq_ok, context_eq_ok, ensure_eq_ok, pure_eq_ok, Json.asNat_eq_some,
          Prod.mk.injEq] at header
        obtain ⟨time, timeRead, _, fresh, price, _, _, _, _, _, rfl, rfl, rfl⟩ := header
        cases block : readBlock call.snapshot with
        | error failure =>
            rw [block] at found
            exact .entered found
        | ok read =>
            obtain ⟨_, _, _⟩ := read
            rw [block] at found
            dsimp only at found
            unfold readBlock at block
            simp only [bind_eq_ok, context_eq_ok, pure_eq_ok, Json.asNat_eq_some,
              Json.asStr_eq_some, Json.asArray_eq_some, Prod.mk.injEq] at block
            obtain ⟨number, blockRead, hash, hashRead, ps, positionsRead, rfl, rfl, rfl⟩ := block
            let reading : Reading F := ⟨time, price, number, hash, call.maxGapMs, call.starts⟩
            refine @Origin.recorded F _ asF64 call history id h reading ps fresh.1 timeRead
              blockRead hashRead positionsRead ?_
            have loop := (@observePositions_lookup F _ asF64 id reading ⟨(history.adopt
              (call.snapshot.field "accounting_identity")).reorganize call.snapshot, [], []⟩
              ps).2
            revert found loop
            generalize observePositions asF64 _ ps _ = outcome
            intro found touched
            obtain ⟨pass, failure | done⟩ := outcome
            · exact found ▸ touched
            · exact lookup_retain found ▸ touched

/-- A call with whole seconds, and with a hash and revisions which are not empty. -/
structure Call.Regular (call : Call) : Prop where
  seconds : ∀ t, (call.snapshot.field "pool").field "time_ms" = .nat t → 1000 ∣ t
  hash : (call.snapshot.field "pool").field "block_hash" ≠ .str ""
  revision : ∀ ps, call.snapshot.field "positions" = .arr ps →
    ∀ p ∈ ps, p.field "accounting_revision" ≠ .str ""

/-- The invariant of a history. -/
def History.Kept (history : History F) : Prop :=
  ∀ id h, history.positions.lookup id = some h → h.Kept

theorem observe_kept (regular : call.Regular) (kept : history.Kept) :
    (observe asF64 call history).1.Kept := by
  have entered {id : String} {h : Holding F}
      (found : ((history.adopt (call.snapshot.field "accounting_identity")).reorganize
        call.snapshot).positions.lookup id = some h) : h.Kept := by
    obtain ⟨before, present, rfl | rfl⟩ := lookup_enter found
    · exact kept id h present
    · have since := (kept id before present).sound.since_pos
      exact ⟨⟨since, Nat.zero_le _, ⟨fun _ mem => absurd mem List.not_mem_nil, .nil⟩⟩,
        fun _ mem => absurd mem List.not_mem_nil⟩
  intro id h found
  cases observe_origin found with
  | kept found => exact kept id h found
  | entered found => exact entered found
  | recorded now time block hash positions touched =>
      exact touched.invariant now (regular.seconds _ time)
        (fun empty => regular.hash (empty ▸ hash)) (regular.revision _ positions)
        fun h found => entered found

/-- The block and the hash of a sample. -/
def Sample.key (s : Sample F) : Nat × String := (s.block, s.blockHash)

/-- Recording a block again leaves no sample of another block. -/
theorem Holding.record_repeated {maxGapMs : Nat} (contiguous : Contiguous h.samples)
    (mem : s ∈ h.samples) (same : s.key = sample.key) :
    ((h.record maxGapMs sample).samples.map Sample.key).Sublist (h.samples.map Sample.key) := by
  have alone : [sample.key].Sublist (h.samples.map Sample.key) := by
    rw [List.singleton_sublist, ← same]
    exact List.mem_map_of_mem mem
  unfold record
  cases last : h.samples.getLast? with
  | none =>
      rw [List.getLast?_eq_none_iff.mp last] at mem
      exact absurd mem List.not_mem_nil
  | some old =>
      dsimp only
      split_ifs with repeated
      · exact List.Sublist.refl _
      · -- The block is recorded, but not last, so that the last one is later.
        obtain ⟨number, hash⟩ := Prod.mk.inj same
        have later : s.block < old.block := by
          obtain ⟨front, split⟩ := List.getLast?_eq_some_iff.mp last
          have increasing := contiguous.blocks
          rw [split, List.map_append, List.pairwise_append] at increasing
          rw [split] at mem
          rcases List.mem_append.mp mem with earlier | here
          · exact increasing.2.2 _ (List.mem_map_of_mem earlier) _ (List.mem_singleton_self _)
          · rw [List.mem_singleton.mp here] at number hash
            exact absurd ⟨number, hash⟩ repeated
        have reset : resetReason? maxGapMs old sample = some "chain_changed" := by
          unfold resetReason?
          rw [if_pos (.inr (number ▸ later.le))]
        rw [reset]
        exact alone

/-- Recording the last block again changes no sample. -/
theorem Holding.record_last {maxGapMs : Nat} (last : h.samples.getLast? = some s)
    (same : s.key = sample.key) : h.record maxGapMs sample = h := by
  obtain ⟨number, hash⟩ := Prod.mk.inj same
  unfold record
  rw [last]
  exact if_pos ⟨number, hash⟩

/-- A holding which is absent or has no samples gets one of the block. -/
theorem Holding.record_first {maxGapMs : Nat} (empty : h.samples = []) :
    (h.record maxGapMs sample).samples = [sample] := by
  unfold record
  rw [empty]
  dsimp only [List.getLast?_nil]
  unfold push
  rw [empty]
  rfl

/-- A call at a block which a holding has recorded adds nothing to it. -/
theorem observe_repeated (kept : history.Kept) (present : history.positions.lookup id = some h)
    (mem : s ∈ h.samples)
    (block : (call.snapshot.field "pool").field "block" = .nat s.block)
    (hash : (call.snapshot.field "pool").field "block_hash" = .str s.blockHash)
    (found : (observe asF64 call history).1.positions.lookup id = some h') :
    (h'.samples.map Sample.key).Sublist (h.samples.map Sample.key) := by
  have entered {h' : Holding F}
      (found : ((history.adopt (call.snapshot.field "accounting_identity")).reorganize
        call.snapshot).positions.lookup id = some h') : h' = h ∨ h'.samples = [] := by
    obtain ⟨before, same, rfl | rfl⟩ := lookup_enter found
    · exact .inl (Option.some_inj.mp (same.symm.trans present))
    · exact .inr rfl
  have unchanged {h' : Holding F} (from_ : h' = h ∨ h'.samples = []) :
      (h'.samples.map Sample.key).Sublist (h.samples.map Sample.key) := by
    rcases from_ with rfl | none
    · exact List.Sublist.refl _
    · rw [none]
      exact List.nil_sublist _
  cases observe_origin found with
  | kept found => exact unchanged (.inl (Option.some_inj.mp (found.symm.trans present)))
  | entered found => exact unchanged (entered found)
  | @recorded reading ps _ _ number text _ touched =>
      generalize before_eq : AList.lookup id _ = before at touched
      generalize after_eq : some h' = after at touched
      cases touched with
      | kept => exact unchanged (entered (before_eq.trans after_eq.symm))
      | @recorded p sample start _ read _ =>
          obtain rfl := Option.some_inj.mp after_eq
          have same : s.key = sample.key := by
            have numbers := Json.nat.inj (block.symm.trans number)
            have texts := Json.str.inj (hash.symm.trans text)
            exact Prod.ext (numbers.trans read.block.symm) (texts.trans read.hash.symm)
          have alone {first : Holding F} (empty : first.samples = []) :
              ((first.record reading.maxGapMs sample).samples.map Sample.key).Sublist
                (h.samples.map Sample.key) := by
            rw [Holding.record_first empty, List.map_singleton, List.singleton_sublist, ← same]
            exact List.mem_map_of_mem mem
          cases before with
          | none => exact alone (by simp [Holding.opened])
          | some before =>
              rcases entered before_eq with rfl | none
              · have contiguous := (kept id before present).sound.contiguous
                have recorded := @Holding.record_repeated F _ (before.backdate start) s sample
                  reading.maxGapMs (by simpa using contiguous) (by simpa using mem) same
                simpa using recorded
              · exact alone (by simpa using none)

/-- With the same owner and without a reorganization, a call at the last block of a holding
leaves its samples alone. -/
theorem observe_last (present : history.positions.lookup id = some h)
    (last : h.samples.getLast? = some s)
    (block : (call.snapshot.field "pool").field "block" = .nat s.block)
    (hash : (call.snapshot.field "pool").field "block_hash" = .str s.blockHash)
    (identity : call.snapshot.field "accounting_identity" = history.identity)
    (steady : call.snapshot.field "accounting_reorg" ≠ .bool true)
    (found : (observe asF64 call history).1.positions.lookup id = some h') :
    h'.samples = h.samples := by
  have entered : (history.adopt (call.snapshot.field "accounting_identity")).reorganize
      call.snapshot = history := by
    unfold History.reorganize History.adopt
    rw [if_neg steady, if_neg (not_not.mpr identity.symm)]
  have same {h' : Holding F} (found : history.positions.lookup id = some h') :
      h'.samples = h.samples := by
    rw [Option.some_inj.mp (found.symm.trans present)]
  cases observe_origin found with
  | kept found => exact same found
  | entered found => exact same (entered ▸ found)
  | @recorded reading ps _ _ number text _ touched =>
      rw [entered, present] at touched
      generalize after_eq : some h' = after at touched
      cases touched with
      | kept => rw [Option.some_inj.mp after_eq]
      | @recorded p sample start _ read _ =>
          obtain rfl := Option.some_inj.mp after_eq
          have numbers := Json.nat.inj (block.symm.trans number)
          have texts := Json.str.inj (hash.symm.trans text)
          have repeated := @Holding.record_last F _ (h.backdate start) s sample
            reading.maxGapMs (by simpa using last)
            (Prod.ext (numbers.trans read.block.symm) (texts.trans read.hash.symm))
          rw [Option.getD_some, repeated, Holding.backdate_samples]

end Steps

section Runs

variable {asF64 : Json → Option F}

/-- The history after calls, some of which may fail. -/
def observed (asF64 : Json → Option F) (history : History F) (calls : List Call) : History F :=
  Semantics.run (observe asF64) history calls

theorem observed_kept {calls : List Call} (kept : history.Kept)
    (regular : ∀ call ∈ calls, call.Regular) : (observed asF64 history calls).Kept :=
  Semantics.run_invariant (observe asF64) History.Kept
    (fun _ _ regular kept => observe_kept regular kept) kept regular

end Runs

namespace Shipped

/-- Natural numbers are read as they are. -/
def natural (v : Json) : Option ℚ := v.asNat.map fun n => (n : ℚ)

/-- A position of a snapshot with some unclaimed fees. -/
def polled (id : String) (fees : Nat) : Json :=
  .obj [("token_id", .str id), ("accounting_revision", .str "r"), ("unclaimed_base", .nat fees),
    ("unclaimed_quote", .nat 0), ("principal_value_usdg", .nat 100)]

/-- A call at the end of a minute. -/
def poll (minute : Nat) (positions : List Json) : Call where
  snapshot := .obj [("mode", .str "live"), ("positions_observed", .bool true),
    ("pool", .obj [("time_ms", .nat (60000 * minute)), ("block", .nat minute),
      ("block_hash", .str "b"), ("price", .nat 2000)]),
    ("accounting_identity", .obj [("owner", .str "o")]), ("positions", .arr positions)]
  now := 60000 * minute
  maxGapMs := 300000
  starts := .empty

theorem poll_regular {minute : Nat} {fees : List (String × Nat)} :
    (poll minute (fees.map fun p => polled p.1 p.2)).Regular where
  seconds t time := by
    obtain rfl : 60000 * minute = t := Json.nat.inj time
    omega
  hash empty := nomatch Json.str.inj empty
  revision ps same p mem := by
    rw [← Json.arr.inj same] at mem
    obtain ⟨_, _, rfl⟩ := List.mem_map.mp mem
    exact fun empty => nomatch Json.str.inj empty

/-- Two blocks, the second one again, and a snapshot with a position twice. -/
def polls : List Call :=
  [(1, [("7", 1)]), (2, [("7", 4)]), (2, [("7", 5)]), (3, [("7", 6), ("7", 6)])].map
    fun call : Nat × List (String × Nat) => poll call.1 (call.2.map fun p => polled p.1 p.2)

end Shipped

end LpMaker.Performance
