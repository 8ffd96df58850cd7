import LpMaker.Numeric.Literals

/-!
# Decimal numbers

A decimal is an integer mantissa with a scale. Rounding to a number of places is exact integer
division; normalizing removes the trailing zeros and leaves the shortest form. The text of a
decimal is read back as the same decimal.
-/

/-- `mantissa / 10 ^ scale`. -/
structure Decimal where
  mantissa : Int
  scale : Nat
deriving DecidableEq

namespace Decimal

/-- The directions in which digits are dropped. -/
inductive Strategy where
  | toZero
  | toNegativeInfinity
  | toPositiveInfinity
deriving DecidableEq

/-- Drop a factor in a direction. -/
def Strategy.divide : Strategy → Int → Nat → Int
  | .toZero, m, factor => m.tdiv factor
  | .toNegativeInfinity, m, factor => m / factor
  | .toPositiveInfinity, m, factor => -(-m / factor)

/-- Keep at most so many places. -/
def round (d : Decimal) (places : Nat) (strategy : Strategy) : Decimal :=
  if d.scale ≤ places then d
  else ⟨strategy.divide d.mantissa (10 ^ (d.scale - places)), places⟩

/-- Remove trailing zeros, as far as the scale allows. -/
def strip : Int → Nat → Decimal
  | m, 0 => ⟨m, 0⟩
  | m, scale + 1 => if m % 10 = 0 then strip (m / 10) scale else ⟨m, scale + 1⟩

def normalize (d : Decimal) : Decimal := strip d.mantissa d.scale

/-- The number of digits of the mantissa. -/
def significant (d : Decimal) : Nat := (Nat.toDigits 10 d.mantissa.natAbs).length

section Value

variable {F : Type} [Field F]

/-- The number a decimal denotes. -/
def value (d : Decimal) : F := (d.mantissa : F) / 10 ^ d.scale

end Value

section Normal

variable {d : Decimal} {m : Int} {scale places : Nat} {strategy : Strategy}

/-- Nothing is left to remove. -/
def Normal (d : Decimal) : Prop := d.scale = 0 ∨ ¬(10 : Int) ∣ d.mantissa

theorem strip_normal : (strip m scale).Normal := by
  induction scale generalizing m with
  | zero => exact .inl rfl
  | succ scale inductionHypothesis =>
      unfold strip
      split_ifs with divisible
      · exact inductionHypothesis
      · exact .inr fun dvd => divisible (Int.emod_eq_zero_of_dvd dvd)

theorem normalize_normal : d.normalize.Normal := strip_normal

theorem strip_of_normal (normal : (Decimal.mk m scale).Normal) : strip m scale = ⟨m, scale⟩ := by
  cases scale with
  | zero => rfl
  | succ scale =>
      rcases normal with zero | indivisible
      · cases zero
      · unfold strip
        rw [if_neg]
        intro divisible
        exact indivisible (Int.dvd_of_emod_eq_zero divisible)

theorem normalize_of_normal (normal : d.Normal) : d.normalize = d := strip_of_normal normal

@[simp] theorem normalize_normalize : d.normalize.normalize = d.normalize :=
  normalize_of_normal normalize_normal

theorem strip_mul_pow : (strip m scale).mantissa * 10 ^ scale = m * 10 ^ (strip m scale).scale := by
  induction scale generalizing m with
  | zero => rfl
  | succ scale inductionHypothesis =>
      unfold strip
      split_ifs with divisible
      · have exact : m / 10 * 10 = m := Int.ediv_mul_cancel (Int.dvd_of_emod_eq_zero divisible)
        calc (strip (m / 10) scale).mantissa * 10 ^ (scale + 1)
            = (strip (m / 10) scale).mantissa * 10 ^ scale * 10 := by ring
          _ = m / 10 * 10 ^ (strip (m / 10) scale).scale * 10 := by rw [inductionHypothesis]
          _ = m / 10 * 10 * 10 ^ (strip (m / 10) scale).scale := by ring
          _ = m * 10 ^ (strip (m / 10) scale).scale := by rw [exact]
      · rfl

theorem strip_scale_le : (strip m scale).scale ≤ scale := by
  induction scale generalizing m with
  | zero => exact le_rfl
  | succ scale inductionHypothesis =>
      unfold strip
      split_ifs
      · exact inductionHypothesis.trans (Nat.le_succ scale)
      · exact le_rfl

theorem normalize_scale_le : d.normalize.scale ≤ d.scale := strip_scale_le

theorem round_scale_le : (d.round places strategy).scale ≤ places := by
  unfold round
  split_ifs with short
  · exact short
  · exact le_rfl

end Normal

section Order

variable {F : Type} [Field F] [LinearOrder F] [IsStrictOrderedRing F] {d : Decimal}
  {places : Nat} {strategy : Strategy}

theorem value_mul_pow : d.value * 10 ^ d.scale = (d.mantissa : F) := by
  unfold value
  rw [div_mul_cancel₀]
  positivity

@[simp] theorem value_normalize : d.normalize.value = (d.value : F) := by
  have same : d.normalize.mantissa * 10 ^ d.scale = d.mantissa * 10 ^ d.normalize.scale :=
    strip_mul_pow
  have cast : (d.normalize.mantissa : F) * 10 ^ d.scale = d.mantissa * 10 ^ d.normalize.scale := by
    exact_mod_cast same
  unfold value
  rw [div_eq_div_iff (by positivity) (by positivity)]
  exact cast

@[simp] theorem value_cast : ((d.value : ℚ) : F) = d.value := by
  unfold value
  push_cast
  rfl

theorem value_pos : (0 : F) < d.value ↔ 0 < d.mantissa := by
  have power : (0 : F) < 10 ^ d.scale := by positivity
  unfold value
  rw [div_pos_iff_of_pos_right power]
  exact_mod_cast Iff.rfl

theorem value_nonneg : (0 : F) ≤ d.value ↔ 0 ≤ d.mantissa := by
  have power : (0 : F) < 10 ^ d.scale := by positivity
  unfold value
  rw [le_div_iff₀ power, zero_mul]
  exact_mod_cast Iff.rfl

/-- A decimal with few enough places is a whole number of units. -/
theorem exists_units (short : d.scale ≤ places) :
    ∃ n : Int, (d.value : F) * 10 ^ places = n ∧ n * 10 ^ d.scale = d.mantissa * 10 ^ places := by
  refine ⟨d.mantissa * 10 ^ (places - d.scale), ?_, ?_⟩
  · have split : (10 : F) ^ places = 10 ^ d.scale * 10 ^ (places - d.scale) := by
      rw [← pow_add, Nat.add_sub_cancel' short]
    rw [split, ← mul_assoc, value_mul_pow]
    push_cast
    ring
  · rw [mul_assoc, ← pow_add, Nat.sub_add_cancel short]

/-- The dropped part of a mantissa. -/
theorem Strategy.divide_bounds (strategy : Strategy) (m : Int) {factor : Nat} (positive : 0 < factor) :
    (strategy = .toPositiveInfinity → m ≤ strategy.divide m factor * factor ∧
      strategy.divide m factor * factor < m + factor) ∧
    (strategy = .toNegativeInfinity ∨ strategy = .toZero ∧ 0 ≤ m →
      strategy.divide m factor * factor ≤ m ∧ m < strategy.divide m factor * factor + factor) := by
  have divisor : (0 : Int) < factor := by exact_mod_cast positive
  have parts := Int.emod_add_mul_ediv m factor
  have low := Int.emod_nonneg m divisor.ne'
  have high := Int.emod_lt_of_pos m divisor
  have parts' := Int.emod_add_mul_ediv (-m) factor
  have low' := Int.emod_nonneg (-m) divisor.ne'
  have high' := Int.emod_lt_of_pos (-m) divisor
  have swap : m / factor * (factor : Int) = factor * (m / factor) := mul_comm _ _
  have swap' : -(-m / factor) * (factor : Int) = -(factor * (-m / factor)) := by ring
  constructor
  · rintro rfl
    change m ≤ -(-m / factor) * factor ∧ -(-m / factor) * factor < m + factor
    rw [swap']
    omega
  · rintro (rfl | ⟨rfl, nonneg⟩)
    · change m / factor * factor ≤ m ∧ m < m / factor * factor + factor
      rw [swap]
      omega
    · change m.tdiv factor * factor ≤ m ∧ m < m.tdiv factor * factor + factor
      rw [Int.tdiv_eq_ediv_of_nonneg nonneg, swap]
      omega

/-- Rounding a mantissa scales its bounds. -/
theorem round_of_long (long : places < d.scale) :
    ((d.round places strategy).value : F) * 10 ^ d.scale =
      strategy.divide d.mantissa (10 ^ (d.scale - places)) * 10 ^ (d.scale - places) := by
  unfold round value
  rw [if_neg (by omega)]
  have split : (10 : F) ^ d.scale = 10 ^ places * 10 ^ (d.scale - places) := by
    rw [← pow_add]
    congr 1
    omega
  rw [split, ← mul_assoc, div_mul_cancel₀]
  positivity

theorem unit_mul_pow (long : places < d.scale) :
    1 / 10 ^ places * 10 ^ d.scale = (10 : F) ^ (d.scale - places) := by
  have split : (10 : F) ^ d.scale = 10 ^ places * 10 ^ (d.scale - places) := by
    rw [← pow_add]
    congr 1
    omega
  rw [split]
  field_simp

/-- Rounding up stays above the number, by less than one unit. -/
theorem round_up (d : Decimal) (places : Nat) : d.value ≤ ((d.round places .toPositiveInfinity).value : F) ∧
    ((d.round places .toPositiveInfinity).value : F) < d.value + 1 / 10 ^ places := by
  rcases Nat.lt_or_ge places d.scale with long | short
  · have power : (0 : F) < 10 ^ d.scale := by positivity
    have bounds := (Strategy.divide_bounds .toPositiveInfinity d.mantissa
      (Nat.pow_pos (n := d.scale - places) (show 0 < 10 by omega))).1 rfl
    rw [← mul_le_mul_iff_left₀ power, ← mul_lt_mul_iff_left₀ power, add_mul, value_mul_pow,
      round_of_long long, unit_mul_pow long]
    exact_mod_cast bounds
  · have unchanged : d.round places .toPositiveInfinity = d := if_pos short
    have unit : (0 : F) < 1 / 10 ^ places := by positivity
    rw [unchanged]
    exact ⟨le_rfl, by linarith⟩

/-- Rounding down, or a number that is not negative towards zero, stays below it by less than
one unit. -/
theorem round_down (d : Decimal) (places : Nat)
    (down : strategy = .toNegativeInfinity ∨ strategy = .toZero ∧ (0 : F) ≤ d.value) :
    ((d.round places strategy).value : F) ≤ d.value ∧
      d.value < ((d.round places strategy).value : F) + 1 / 10 ^ places := by
  rcases Nat.lt_or_ge places d.scale with long | short
  · have power : (0 : F) < 10 ^ d.scale := by positivity
    have bounds := (Strategy.divide_bounds strategy d.mantissa
      (Nat.pow_pos (n := d.scale - places) (show 0 < 10 by omega))).2
      (down.imp_right fun zero => ⟨zero.1, value_nonneg.mp zero.2⟩)
    rw [← mul_le_mul_iff_left₀ power, ← mul_lt_mul_iff_left₀ power, add_mul, value_mul_pow,
      round_of_long long, unit_mul_pow long]
    exact_mod_cast bounds
  · have unchanged : d.round places strategy = d := if_pos short
    have unit : (0 : F) < 1 / 10 ^ places := by positivity
    rw [unchanged]
    exact ⟨le_rfl, by linarith⟩

theorem round_nonneg (nonneg : (0 : F) ≤ d.value) :
    (0 : F) ≤ (d.round places strategy).value := by
  rw [value_nonneg] at nonneg ⊢
  unfold round
  split_ifs
  · exact nonneg
  · cases strategy with
    | toZero => exact Int.tdiv_nonneg nonneg (by positivity)
    | toNegativeInfinity => exact Int.ediv_nonneg nonneg (by positivity)
    | toPositiveInfinity =>
        have divided : -d.mantissa / ((10 ^ (d.scale - places) : Nat) : Int) ≤ 0 :=
          Int.ediv_nonpos_of_nonpos_of_neg (by omega) (by positivity)
        change 0 ≤ -(-d.mantissa / ((10 ^ (d.scale - places) : Nat) : Int))
        omega

end Order

/-- A text form of decimals. What is written is read back. -/
structure Text where
  parse : String → Option Decimal
  format : Decimal → String
  parse_format : ∀ d, parse (format d) = some d

section Plain

/-- The decimal digits of a number, filled up with zeros to a width. -/
def digits (width n : Nat) : List Char :=
  List.replicate (width - (Nat.toDigits 10 n).length) '0' ++ Nat.toDigits 10 n

/-- The digits without a sign: a point stands before the last `scale` of them. -/
def formatUnsigned (n scale : Nat) : List Char :=
  Nat.toDigits 10 (n / 10 ^ scale) ++
    if scale = 0 then [] else '.' :: digits scale (n % 10 ^ scale)

def formatPlain (d : Decimal) : String :=
  String.ofList
    (if d.mantissa < 0 then '-' :: formatUnsigned d.mantissa.natAbs d.scale
    else formatUnsigned d.mantissa.natAbs d.scale)

/-- Digits, a point and digits again; the point and what follows may be missing. -/
def parseUnsigned (text : List Char) : Option (Nat × Nat) :=
  let whole := text.takeWhile fun ch => ch ≠ '.'
  let places := (text.drop (whole.length + 1))
  if whole ≠ [] ∧ (whole ++ places).all Char.isDigit then
    some (Nat.ofDigitChars 10 (whole ++ places) 0, places.length)
  else none

def parsePlain (text : String) : Option Decimal :=
  match text.toList with
  | '-' :: rest => (parseUnsigned rest).map fun parts => ⟨-parts.1, parts.2⟩
  | rest => (parseUnsigned rest).map fun parts => ⟨parts.1, parts.2⟩

variable {n width scale : Nat}

theorem digits_length (small : n < 10 ^ width) (positive : 0 < width) :
    (digits width n).length = width := by
  have le := (Nat.length_toDigits_le_iff (by omega) positive).mpr small
  rw [digits, List.length_append, List.length_replicate]
  omega

theorem isDigit_of_mem_digits {ch : Char} (mem : ch ∈ digits width n) : ch.isDigit = true := by
  rcases List.mem_append.mp mem with zero | digit
  · rw [List.eq_of_mem_replicate zero]
    rfl
  · exact Nat.isDigit_of_mem_toDigits (by omega) (by omega) digit

theorem ofDigitChars_digits : Nat.ofDigitChars 10 (digits width n) 0 = n := by
  rw [digits, Nat.ofDigitChars_append, Nat.ofDigitChars_replicate_zero, Nat.mul_zero,
    Nat.ofDigitChars_ten_toDigits]

theorem ne_point_of_isDigit {ch : Char} (digit : ch.isDigit = true) : ch ≠ '.' := by
  rintro rfl
  cases digit

theorem parseUnsigned_formatUnsigned : parseUnsigned (formatUnsigned n scale) = some (n, scale) := by
  have whole_digits : ∀ ch ∈ Nat.toDigits 10 (n / 10 ^ scale), ch.isDigit = true := by
    intro ch mem
    exact Nat.isDigit_of_mem_toDigits (by omega) (by omega) mem
  have no_point : ∀ ch ∈ Nat.toDigits 10 (n / 10 ^ scale), decide (ch ≠ '.') = true := by
    intro ch mem
    exact decide_eq_true (ne_point_of_isDigit (whole_digits ch mem))
  have whole : (formatUnsigned n scale).takeWhile (fun ch => ch ≠ '.') =
      Nat.toDigits 10 (n / 10 ^ scale) := by
    unfold formatUnsigned
    rw [List.takeWhile_append_of_pos no_point]
    split_ifs <;> simp
  rcases Nat.eq_zero_or_pos scale with rfl | positive
  · have rest : (formatUnsigned n 0).drop ((Nat.toDigits 10 (n / 10 ^ 0)).length + 1) = [] := by
      simp [formatUnsigned]
    unfold parseUnsigned
    simp only [whole, rest, List.append_nil]
    rw [if_pos ⟨Nat.toDigits_ne_nil, List.all_eq_true.mpr whole_digits⟩,
      Nat.ofDigitChars_ten_toDigits, Nat.pow_zero, Nat.div_one]
    rfl
  · have rest : (formatUnsigned n scale).drop ((Nat.toDigits 10 (n / 10 ^ scale)).length + 1) =
        digits scale (n % 10 ^ scale) := by
      unfold formatUnsigned
      rw [if_neg positive.ne', List.drop_append, List.drop_of_length_le (by omega)]
      simp
    have small : n % 10 ^ scale < 10 ^ scale := Nat.mod_lt _ (by positivity)
    have length := digits_length small positive
    unfold parseUnsigned
    simp only [whole, rest]
    rw [if_pos, Nat.ofDigitChars_append, Nat.ofDigitChars_eq_ofDigitChars_zero,
      Nat.ofDigitChars_ten_toDigits, ofDigitChars_digits, length, Nat.div_add_mod]
    refine ⟨Nat.toDigits_ne_nil, List.all_eq_true.mpr ?_⟩
    intro ch mem
    rcases List.mem_append.mp mem with mem | mem
    · exact whole_digits ch mem
    · exact isDigit_of_mem_digits mem

theorem formatUnsigned_head : ∃ ch rest, formatUnsigned n scale = ch :: rest ∧ ch.isDigit = true := by
  obtain ⟨ch, rest, whole⟩ := List.exists_cons_of_ne_nil
    (Nat.toDigits_ne_nil (n := n / 10 ^ scale) (b := 10))
  refine ⟨ch, rest ++ if scale = 0 then [] else '.' :: digits scale (n % 10 ^ scale), ?_, ?_⟩
  · unfold formatUnsigned
    rw [whole, List.cons_append]
  · exact Nat.isDigit_of_mem_toDigits (b := 10) (n := n / 10 ^ scale) (by omega) (by omega)
      (whole ▸ List.mem_cons_self)

/-- The plain text of a decimal. -/
def plain : Text where
  parse := parsePlain
  format := formatPlain
  parse_format := by
    intro d
    unfold parsePlain formatPlain
    split_ifs with negative
    · simp only [String.toList_ofList, parseUnsigned_formatUnsigned, Option.map_some,
        Option.some.injEq]
      have mantissa : -(d.mantissa.natAbs : Int) = d.mantissa := by omega
      rw [mantissa]
    · obtain ⟨ch, rest, head, digit⟩ := @formatUnsigned_head d.mantissa.natAbs d.scale
      have parsed := @parseUnsigned_formatUnsigned d.mantissa.natAbs d.scale
      have mantissa : (d.mantissa.natAbs : Int) = d.mantissa := by omega
      rw [String.toList_ofList]
      split
      · rename_i signed
        rw [head] at signed
        cases signed
        cases digit
      · rw [parsed, Option.map_some, mantissa]

end Plain

end Decimal
