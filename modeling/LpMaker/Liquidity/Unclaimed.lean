import LpMaker.Liquidity.FeeGrowth
import LpMaker.Numeric.Checked
import LpMaker.Semantics.Result

/-!
# Unclaimed fees

The fees of a position, computed from the words of its ticks and of the global counters. For
every history of the pool they are the fees which accrued inside the range since the checkpoint.
-/

namespace LpMaker

open FeeGrowth

/-- Read the words of a pool at the block of a snapshot. -/
abbrev PoolReader := String → List Word → Except String (List Word)

/-- The words of a position in the NFPM, whose number is checked when they are read. -/
abbrev PositionWords := Vector Word 12

/-- The signed tick in the low 24 bits of a word. -/
def signedTick (w : Word) : Int :=
  let v : Nat := w.toNat % 2 ^ 24
  if v / 2 ^ 23 % 2 = 1 then (v : Int) - 2 ^ 24 else v

/-- The word of a tick. -/
def tickWord (t : Int) : Word :=
  if t < 0 then BitVec.allOnes 256 - BitVec.ofNat 256 (-t - 1).toNat else BitVec.ofNat 256 t.toNat

/-- The fees of one token, from the words of both ticks and the global growth. -/
def unclaimedToken (position : PositionWords) (tick : Int) (lower upper : List Word)
    (global : Word) (i : Fin 2) : Except String Word := do
  let below := if tick ≥ signedTick position[5] then lower.getD (2 + i) 0
    else global - lower.getD (2 + i) 0
  let above := if tick < signedTick position[6] then upper.getD (2 + i) 0
    else global - upper.getD (2 + i) 0
  let inside := global - below - above
  let delta := inside - position.get ⟨8 + i, by omega⟩
  let earned := delta.toNat * position[7].toNat / 2 ^ 128
  ensure (earned ≤ 2 ^ 256 - 1) "fee amount overflow"
  context (Checked.add (BitVec.ofNat 256 earned) (position.get ⟨10 + i, by omega⟩)) "fee overflow"

/-- The fees of both tokens at the tick of a snapshot. -/
def unclaimed (read : PoolReader) (position : PositionWords) (tick : Int) :
    Except String (Word × Word) := do
  let lower ← read "ticks(int24)" [tickWord (signedTick position[5])]
  let upper ← read "ticks(int24)" [tickWord (signedTick position[6])]
  ensure (lower.length ≥ 4 ∧ upper.length ≥ 4) "tick ABI mismatch"
  let words0 ← read "feeGrowthGlobal0X128()" []
  let global0 ← context words0.head? "index out of bounds"
  let out0 ← unclaimedToken position tick lower upper global0 0
  let words1 ← read "feeGrowthGlobal1X128()" []
  let global1 ← context words1.head? "index out of bounds"
  let out1 ← unclaimedToken position tick lower upper global1 1
  pure (out0, out1)

/-- The reader answers with the words of a pool, whose ticks have 24 bits. -/
structure Serves (read : PoolReader) (pool : Pool) : Prop where
  ticks : ∀ tick info, -2 ^ 23 ≤ tick → tick < 2 ^ 23 → pool.ticks tick = some info →
    ∃ gross net rest,
    read "ticks(int24)" [tickWord tick] =
      .ok (gross :: net :: info.outside 0 :: info.outside 1 :: rest)
  growth0 : ∃ rest, read "feeGrowthGlobal0X128()" [] = .ok (pool.growth 0 :: rest)
  growth1 : ∃ rest, read "feeGrowthGlobal1X128()" [] = .ok (pool.growth 1 :: rest)

section Words

/-- A tick of 24 bits is read back from its word. -/
theorem signedTick_tickWord {t : Int} (low : -2 ^ 23 ≤ t) (high : t < 2 ^ 23) :
    signedTick (tickWord t) = t := by
  unfold signedTick tickWord
  by_cases negative : t < 0
  · rw [if_pos negative]
    have small : (BitVec.ofNat 256 (-t - 1).toNat).toNat = (-t - 1).toNat := by
      rw [BitVec.toNat_ofNat, Nat.mod_eq_of_lt (by omega)]
    have word : (BitVec.allOnes 256 - BitVec.ofNat 256 (-t - 1).toNat).toNat =
        2 ^ 256 - 1 - (-t - 1).toNat := by
      rw [BitVec.toNat_sub_of_le, BitVec.toNat_allOnes, small]
      rw [BitVec.le_def, BitVec.toNat_allOnes, small]
      omega
    rw [word]
    dsimp only
    split_ifs <;> omega
  · rw [if_neg negative]
    have word : (BitVec.ofNat 256 t.toNat).toNat = t.toNat := by
      rw [BitVec.toNat_ofNat, Nat.mod_eq_of_lt (by omega)]
    rw [word]
    dsimp only
    split_ifs <;> omega

end Words

section Fees

variable {position : PositionWords} {tick lower upper : Int} {global delta out : Word} {i : Fin 2}
  {lowerWords upperWords : List Word}

/-- The growth which the position has not been paid, times its liquidity. -/
def earnedFees (delta liquidity : Word) : Nat := delta.toNat * liquidity.toNat / 2 ^ 128

/-- The fees of a token are exact, or an error. -/
theorem unclaimedToken_eq_ok {pool : Pool} {below above : TickInfo}
    (lower_eq : signedTick position[5] = lower) (upper_eq : signedTick position[6] = upper)
    (lower_word : lowerWords.getD (2 + i) 0 = below.outside i)
    (upper_word : upperWords.getD (2 + i) 0 = above.outside i) :
    unclaimedToken position pool.tick lowerWords upperWords (pool.growth i) i = .ok out ↔
      out.toNat = earnedFees (pool.growthInside lower upper below above i -
          position.get ⟨8 + i, by omega⟩) position[7] +
        (position.get ⟨10 + i, by omega⟩).toNat := by
  unfold unclaimedToken earnedFees Pool.growthInside Pool.growthBelow Pool.growthAbove
  rw [lower_eq, upper_eq, lower_word, upper_word]
  dsimp only
  generalize (pool.growth i - _ - _ - position.get _).toNat * position[7].toNat / 2 ^ 128 = earned
  rw [check_bind_eq_ok, ensure_eq_ok, context_eq_ok, Checked.add_eq_some, BitVec.toNat_ofNat]
  constructor
  · intro ⟨fits, sum⟩
    rw [Nat.mod_eq_of_lt (by omega)] at sum
    exact sum.symm
  · intro exact
    have fits : earned < 2 ^ 256 := by
      have bound := out.isLt
      omega
    exact ⟨by omega, by rw [Nat.mod_eq_of_lt fits, exact]⟩

/-- A reading whose successful results are two exact amounts fails when one does not fit. -/
theorem error_iff_overflow {outcome : Except String (Word × Word)} {amount0 amount1 : Nat}
    (exact : ∀ a b, outcome = .ok (a, b) ↔ a.toNat = amount0 ∧ b.toNat = amount1) :
    (∃ failure, outcome = .error failure) ↔ 2 ^ 256 ≤ amount0 ∨ 2 ^ 256 ≤ amount1 := by
  constructor
  · rintro ⟨failure, failed⟩
    by_contra fits
    have fits0 : amount0 < 2 ^ 256 := by omega
    have fits1 : amount1 < 2 ^ 256 := by omega
    have returned : outcome = .ok (BitVec.ofNat 256 amount0, BitVec.ofNat 256 amount1) := by
      rw [exact, BitVec.toNat_ofNat, BitVec.toNat_ofNat, Nat.mod_eq_of_lt fits0,
        Nat.mod_eq_of_lt fits1]
      exact ⟨rfl, rfl⟩
    rw [failed] at returned
    cases returned
  · intro overflow
    cases returned : outcome with
    | error failure => exact ⟨failure, rfl⟩
    | ok amounts =>
        obtain ⟨a, b⟩ := amounts
        obtain ⟨exact0, exact1⟩ := (exact a b).mp returned
        have bound0 := a.isLt
        have bound1 := b.isLt
        omega

end Fees

section History

variable {read : PoolReader} {position : PositionWords} {pool : Pool} {events : List Event}
  {lower upper : Int} {below above : TickInfo}

/-- Both tokens are read from the words of the pool. -/
theorem unclaimed_eq_ok {a b : Word} (serves : Serves read pool) (ordered : lower < upper)
    (low : -2 ^ 23 ≤ lower) (high : upper < 2 ^ 23)
    (lower_eq : signedTick position[5] = lower) (upper_eq : signedTick position[6] = upper)
    (lower_present : pool.ticks lower = some below)
    (upper_present : pool.ticks upper = some above) :
    unclaimed read position pool.tick = .ok (a, b) ↔
      (a.toNat = earnedFees (pool.growthInside lower upper below above 0 - position[8])
          position[7] + position[10].toNat) ∧
        b.toNat = earnedFees (pool.growthInside lower upper below above 1 - position[9])
          position[7] + position[11].toNat := by
  obtain ⟨_, _, _, lowerRead⟩ := serves.ticks lower below low (by omega) lower_present
  obtain ⟨_, _, _, upperRead⟩ := serves.ticks upper above (by omega) high upper_present
  obtain ⟨_, growth0Read⟩ := serves.growth0
  obtain ⟨_, growth1Read⟩ := serves.growth1
  unfold unclaimed
  rw [lower_eq, upper_eq, lowerRead, upperRead, growth0Read, growth1Read]
  simp only [bind_eq_ok, ensure_eq_ok, Except.ok.injEq, exists_eq_left', List.head?_cons,
    context_eq_ok, Option.some.injEq, pure_eq_ok, Prod.mk.injEq, List.length_cons]
  constructor
  · rintro ⟨_, _, out0, token0, out1, token1, rfl, rfl⟩
    exact ⟨(unclaimedToken_eq_ok lower_eq upper_eq rfl rfl).mp token0,
      (unclaimedToken_eq_ok lower_eq upper_eq rfl rfl).mp token1⟩
  · rintro ⟨token0, token1⟩
    exact ⟨(), by omega, a, (unclaimedToken_eq_ok lower_eq upper_eq rfl rfl).mpr token0,
      b, (unclaimedToken_eq_ok lower_eq upper_eq rfl rfl).mpr token1, rfl, rfl⟩

/-- The fees of an accrued growth, with the tokens which are owed already. -/
def owedFees (position : PositionWords) (accrued : Nat) (i : Fin 2) : Nat :=
  accrued % 2 ^ 256 * position[7].toNat / 2 ^ 128 + (position.get ⟨10 + i, by omega⟩).toNat

/-- For every history since its checkpoint the fees of a position are those which accrued while
the tick was in its range, and an error when they do not fit. -/
theorem unclaimed_exact (ordered : lower < upper) (low : -2 ^ 23 ≤ lower) (high : upper < 2 ^ 23)
    (lower_present : pool.ticks lower = some below)
    (upper_present : pool.ticks upper = some above)
    (kept : ∀ event ∈ events, event ≠ .deactivate lower ∧ event ≠ .deactivate upper)
    (lower_word : position[5] = tickWord lower) (upper_word : position[6] = tickWord upper)
    (paid0 : position[8] = pool.growthInside lower upper below above 0)
    (paid1 : position[9] = pool.growthInside lower upper below above 1)
    (serves : Serves read (pool.run events)) :
    (∃ below' above', (pool.run events).ticks lower = some below' ∧
        (pool.run events).ticks upper = some above' ∧
        (pool.run events).growthInside lower upper below' above' 0 - position[8] =
          BitVec.ofNat 256 (pool.accruedInside lower upper events 0) ∧
        (pool.run events).growthInside lower upper below' above' 1 - position[9] =
          BitVec.ofNat 256 (pool.accruedInside lower upper events 1)) ∧
      (∀ a b, unclaimed read position (pool.run events).tick = .ok (a, b) ↔
        a.toNat = owedFees position (pool.accruedInside lower upper events 0) 0 ∧
          b.toNat = owedFees position (pool.accruedInside lower upper events 1) 1) ∧
      ((∃ failure, unclaimed read position (pool.run events).tick = .error failure) ↔
        2 ^ 256 ≤ owedFees position (pool.accruedInside lower upper events 0) 0 ∨
          2 ^ 256 ≤ owedFees position (pool.accruedInside lower upper events 1) 1) := by
  obtain ⟨below', above', lowerKept, upperKept, inside⟩ :=
    Pool.growthInside_run ordered lower_present upper_present kept
  have lower_eq : signedTick position[5] = lower :=
    lower_word ▸ signedTick_tickWord low (by omega)
  have upper_eq : signedTick position[6] = upper :=
    upper_word ▸ signedTick_tickWord (by omega) high
  have result : ∀ a b, unclaimed read position (pool.run events).tick = .ok (a, b) ↔
      a.toNat = owedFees position (pool.accruedInside lower upper events 0) 0 ∧
        b.toNat = owedFees position (pool.accruedInside lower upper events 1) 1 := by
    intro a b
    rw [unclaimed_eq_ok serves ordered low high lower_eq upper_eq lowerKept upperKept, paid0, paid1,
      inside, inside]
    unfold earnedFees owedFees
    rw [BitVec.toNat_ofNat, BitVec.toNat_ofNat]
    rfl
  exact ⟨⟨below', above', lowerKept, upperKept, paid0 ▸ inside 0, paid1 ▸ inside 1⟩, result,
    error_iff_overflow result⟩

/-- The words of a pool, with zeros for a tick that is not initialized. -/
def poolWords (pool : Pool) : PoolReader := fun signature arguments =>
  if signature = "feeGrowthGlobal0X128()" then .ok [pool.growth 0]
  else if signature = "feeGrowthGlobal1X128()" then .ok [pool.growth 1]
  else
    match pool.ticks (signedTick (arguments.headD 0)) with
    | some info => .ok [1, 1, info.outside 0, info.outside 1]
    | none => .ok [0, 0, 0, 0]

theorem poolWords_serves : Serves (poolWords pool) pool where
  ticks tick info low high present := by
    refine ⟨1, 1, [], ?_⟩
    simp [poolWords, signedTick_tickWord low high, present]
  growth0 := ⟨[], rfl⟩
  growth1 := ⟨[], rfl⟩

namespace Shipped

/-- A pool around tick 0 whose counter of the second token is about to wrap around. -/
def wrappingPool : Pool :=
  { tick := 0
    growth := fun i => if i = 0 then 0 else BitVec.allOnes 256
    ticks := fun t => if t = -10 ∨ t = 10 then some ⟨fun _ => 7⟩ else none }

/-- Fees inside the range, a crossing, fees outside, the way back, and fees inside again. -/
def crossings : List Event :=
  let fee : Event := .accrue fun _ => 2 ^ 128
  [fee, .move 10, fee, .move (-11), fee, .move 3, fee]

def wrappingPosition : PositionWords :=
  let paid (i : Fin 2) := wrappingPool.growthInside (-10) 10 ⟨fun _ => 7⟩ ⟨fun _ => 7⟩ i
  #v[0, 0, 0, 0, 0, tickWord (-10), tickWord 10, 5, paid 0, paid 1, 100, 200]

/-- Two of the four fees accrue inside the range. -/
theorem wrapping_unclaimed :
    unclaimed (poolWords (wrappingPool.run crossings)) wrappingPosition
      (wrappingPool.run crossings).tick = .ok (110, 210) := by
  have exact := @unclaimed_exact _ wrappingPosition wrappingPool crossings (-10) 10 _ _
    (by decide) (by decide) (by decide) rfl rfl (by simp [crossings]) rfl rfl rfl rfl
    poolWords_serves
  exact (exact.2.1 110 210).mpr (by decide +kernel)

end Shipped

end History

end LpMaker
