import LpMaker.Hyperliquid.Orders

/-!
# Exchange-valid prices

Rounding a price to the places of its magnitude stays on the grid of the exchange, also where
rounding up crosses a power of ten. What `tradeable` accepts is built into an order unchanged.
-/

namespace LpMaker.Hyperliquid.Orders

variable {F : Type} [F64 F] [FloorRing F] {conversion : F → Option Decimal}
  {text : Decimal.Text} {x : F} {szDecimals k : Nat} {roundUp : Bool} {d : Decimal}

/-- The places of a price leave it below five digits. -/
theorem mul_pow_places_lt (some_place : places x szDecimals ≠ 0) :
    x * 10 ^ places x szDecimals < 10 ^ 5 := by
  have within : places x szDecimals ≤ (4 - Int.log 10 x).toNat := min_le_left _ _
  have exponent : (Int.log 10 x + 1) + (places x szDecimals : ℤ) ≤ 5 := by omega
  have below : x < (10 : F) ^ (Int.log 10 x + 1) := by
    exact_mod_cast Int.lt_zpow_succ_log_self (b := 10) (by omega) x
  calc x * 10 ^ places x szDecimals
      < (10 : F) ^ (Int.log 10 x + 1) * 10 ^ places x szDecimals := by gcongr
    _ = (10 : F) ^ ((Int.log 10 x + 1) + (places x szDecimals : ℤ)) := by
        rw [zpow_add₀ (show (10 : F) ≠ 0 by norm_num) (Int.log 10 x + 1), zpow_natCast]
    _ ≤ (10 : F) ^ (5 : ℤ) := zpow_le_zpow_right₀ (by norm_num) exponent
    _ = 10 ^ 5 := by norm_num

/-- The direction of a price. -/
def strategy (roundUp : Bool) : Decimal.Strategy :=
  if roundUp then .toPositiveInfinity else .toNegativeInfinity

/-- A rounded price lies on the requested side, within one unit of its last place. -/
theorem round_side (d : Decimal) (k : Nat) (roundUp : Bool) :
    (if roundUp then d.value ≤ ((d.round k (strategy roundUp)).value : F)
      else ((d.round k (strategy roundUp)).value : F) ≤ d.value) ∧
    |((d.round k (strategy roundUp)).value : F) - d.value| < 1 / 10 ^ k := by
  cases roundUp with
  | true =>
      obtain ⟨above, close⟩ := Decimal.round_up (F := F) d k
      refine ⟨above, ?_⟩
      change |((d.round k .toPositiveInfinity).value : F) - d.value| < 1 / 10 ^ k
      rw [abs_of_nonneg (by linarith)]
      linarith
  | false =>
      obtain ⟨below, close⟩ := Decimal.round_down (F := F) d k
        (.inl (rfl : Decimal.Strategy.toNegativeInfinity = _))
      refine ⟨below, ?_⟩
      change |((d.round k .toNegativeInfinity).value : F) - d.value| < 1 / 10 ^ k
      rw [abs_of_nonpos (by linarith)]
      linarith

/-- A normal decimal of few units has few digits. -/
theorem significant_le {n : Int} (normal : d.Normal) (fraction : d.scale ≠ 0)
    (short : d.scale ≤ k) (units : n * 10 ^ d.scale = d.mantissa * 10 ^ k) (nonneg : 0 ≤ n)
    (few : n ≤ 10 ^ 5) : d.mantissa.natAbs < 10 ^ 5 := by
  have indivisible : ¬(10 : Int) ∣ d.mantissa := normal.resolve_left fraction
  have quotient : n = d.mantissa * 10 ^ (k - d.scale) := by
    have power : (10 : Int) ^ k = 10 ^ (k - d.scale) * 10 ^ d.scale := by
      rw [← pow_add, Nat.sub_add_cancel short]
    rw [power, ← mul_assoc] at units
    exact mul_right_cancel₀ (by positivity) units
  have unit : (1 : Int) ≤ 10 ^ (k - d.scale) := one_le_pow₀ (by norm_num)
  have mantissa_nonneg : 0 ≤ d.mantissa := by
    by_contra negative
    have product : d.mantissa * 10 ^ (k - d.scale) ≤ d.mantissa * 1 :=
      mul_le_mul_of_nonpos_left unit (by omega)
    omega
  have mantissa_le : d.mantissa ≤ n := by
    rw [quotient]
    exact le_mul_of_one_le_right mantissa_nonneg unit
  have different : d.mantissa ≠ 10 ^ 5 := by
    intro same
    exact indivisible (same ▸ by norm_num)
  norm_num at few different ⊢
  omega

/-- What is validated is what was written, in its shortest form. -/
theorem validatePrice_format {checked : Decimal} :
    validatePrice text (text.format d) szDecimals = .ok checked ↔
      (0 < d.mantissa ∧ szDecimals ≤ 6) ∧ d.normalize.scale ≤ 6 - szDecimals ∧
        (d.normalize.scale = 0 ∨ d.normalize.significant ≤ 5) ∧ d.normalize = checked := by
  unfold validatePrice
  simp only [text.parse_format, context, bind_eq_ok, ensure_eq_ok, pure_eq_ok,
    Decimal.value_normalize, gt_iff_lt, Except.ok.injEq, exists_eq_left', exists_const,
    Decimal.value_pos]

section Rounded

variable {p : Decimal} (exact : d.value = x) (positive : 0 < x)
  (rounded : p = (d.round (places x szDecimals) (strategy roundUp)).normalize)

include exact positive rounded

/-- A rounded price is a number of units of at most one hundred thousand. -/
theorem rounded_units : ∃ n : Int, (p.value : F) * 10 ^ places x szDecimals = n ∧
    n * 10 ^ p.scale = p.mantissa * 10 ^ places x szDecimals ∧ 0 ≤ n ∧
    (places x szDecimals ≠ 0 → n ≤ 10 ^ 5) := by
  have short : p.scale ≤ places x szDecimals :=
    rounded ▸ Decimal.normalize_scale_le.trans Decimal.round_scale_le
  obtain ⟨n, units, mantissa⟩ := Decimal.exists_units (F := F) short
  have power : (0 : F) < 10 ^ places x szDecimals := by positivity
  have nonneg : (0 : F) ≤ p.value := by
    rw [rounded, Decimal.value_normalize]
    exact Decimal.round_nonneg (exact ▸ positive.le)
  refine ⟨n, units, mantissa, ?_, ?_⟩
  · have scaled : (0 : F) ≤ n := units ▸ mul_nonneg nonneg power.le
    exact_mod_cast scaled
  · intro some_place
    have few := mul_pow_places_lt some_place
    obtain ⟨-, close⟩ := round_side (F := F) d (places x szDecimals) roundUp
    rw [exact, ← Decimal.value_normalize, ← rounded] at close
    have above : (p.value : F) < x + 1 / 10 ^ places x szDecimals := by
      have := (abs_lt.mp close).2
      linarith
    have scaled : (n : F) < x * 10 ^ places x szDecimals + 1 := by
      calc (n : F) = p.value * 10 ^ places x szDecimals := units.symm
        _ < (x + 1 / 10 ^ places x szDecimals) * 10 ^ places x szDecimals := by gcongr
        _ = x * 10 ^ places x szDecimals + 1 := by field_simp
    have bound : (n : F) < 10 ^ 5 + 1 := by linarith
    have integral : n < 10 ^ 5 + 1 := by exact_mod_cast bound
    omega

/-- A rounded price has few digits. -/
theorem rounded_significant (fraction : p.scale ≠ 0) : p.mantissa.natAbs < 10 ^ 5 := by
  have short : p.scale ≤ places x szDecimals :=
    rounded ▸ Decimal.normalize_scale_le.trans Decimal.round_scale_le
  obtain ⟨n, -, units, nonneg, few⟩ := rounded_units exact positive rounded
  exact significant_le (rounded ▸ Decimal.normalize_normal) fraction short units nonneg
    (few (by omega))

/-- A rounded price lies on the grid. -/
theorem rounded_mem_grid : (p.value : F) ∈ grid F szDecimals := by
  by_cases whole : p.scale = 0
  · refine .inl ⟨p.mantissa, ?_⟩
    rw [← Decimal.value_mul_pow, whole, pow_zero, mul_one]
  · refine .inr ⟨?_, p.mantissa, p.scale, ?_, Decimal.value_mul_pow⟩
    · have short : p.scale ≤ 6 - szDecimals :=
        (rounded ▸ Decimal.normalize_scale_le.trans Decimal.round_scale_le :
          p.scale ≤ places x szDecimals).trans (min_le_right _ _)
      obtain ⟨n, units, -⟩ := Decimal.exists_units (F := F) short
      exact ⟨n, units⟩
    · have few := rounded_significant exact positive rounded whole
      rw [Int.abs_eq_natAbs]
      exact_mod_cast few

/-- A rounded price passes its own check unless it is zero. -/
theorem validatePrice_rounded (sz : szDecimals ≤ 6) :
    validatePrice text (text.format p) szDecimals = .ok p ↔ (0 : F) < p.value := by
  have normal : p.normalize = p := by
    rw [rounded, Decimal.normalize_normalize]
  have short : p.scale ≤ places x szDecimals :=
    rounded ▸ Decimal.normalize_scale_le.trans Decimal.round_scale_le
  have within : p.scale ≤ 6 - szDecimals := short.trans (min_le_right _ _)
  have digits : p.scale = 0 ∨ p.significant ≤ 5 := by
    by_cases whole : p.scale = 0
    · exact .inl whole
    · right
      rw [Decimal.significant, Nat.length_toDigits_le_iff (by omega) (by omega)]
      exact rounded_significant exact positive rounded whole
  rw [validatePrice_format, normal, Decimal.value_pos]
  exact ⟨fun passed => passed.1.1, fun above => ⟨⟨above, sz⟩, within, digits, rfl⟩⟩

end Rounded

section Results

variable {s : String} (exact : ∀ x d, conversion x = some d → (d.value : F) = x)

include exact

/-- `price` writes the rounded price, unless that is zero. -/
theorem price_eq_ok :
    price conversion text x szDecimals roundUp = .ok s ↔
      (F64.isFinite x = true ∧ 0 < x ∧ szDecimals ≤ 6) ∧ ∃ d p, conversion x = some d ∧
        p = (d.round (places x szDecimals) (strategy roundUp)).normalize ∧
        (0 : F) < p.value ∧ s = text.format p := by
  unfold price
  simp only [bind_eq_ok, ensure_eq_ok, context_eq_ok, pure_eq_ok]
  constructor
  · rintro ⟨_, ⟨finite, positive, sz⟩, d, converted, _, valid, rfl⟩
    refine ⟨⟨finite, positive, sz⟩, d, _, converted, rfl, ?_, rfl⟩
    exact Decimal.value_pos.mpr (validatePrice_format.mp valid).1.1
  · rintro ⟨⟨finite, positive, sz⟩, d, p, converted, rounded, above, rfl⟩
    have valid : validatePrice text (text.format p) szDecimals = .ok p :=
      (validatePrice_rounded (exact x d converted) positive rounded sz).mpr above
    exact ⟨(), ⟨finite, positive, sz⟩, d, converted, p, rounded ▸ valid, by rw [rounded]; rfl⟩

/-- `price` only fails when the conversion does or the rounded price is zero. -/
theorem price_eq_error {error : String} (finite : F64.isFinite x = true) (positive : 0 < x)
    (sz : szDecimals ≤ 6)
    (failed : price conversion text x szDecimals roundUp = .error error) :
    conversion x = none ∨ roundUp = false ∧ x < 1 / 10 ^ places x szDecimals := by
  cases converted : conversion x with
  | none => exact .inl rfl
  | some d =>
      right
      have value := exact x d converted
      obtain ⟨side, close⟩ := round_side (F := F) d (places x szDecimals) roundUp
      rw [value] at side close
      have zero : ((d.round (places x szDecimals) (strategy roundUp)).value : F) ≤ 0 := by
        by_contra above
        have written : price conversion text x szDecimals roundUp = .ok (text.format
            (d.round (places x szDecimals) (strategy roundUp)).normalize) := by
          refine (price_eq_ok exact).mpr ⟨⟨finite, positive, sz⟩, d, _, converted, rfl, ?_, rfl⟩
          rw [Decimal.value_normalize]
          exact not_le.mp above
        cases failed.symm.trans written
      cases roundUp with
      | true =>
          rw [if_pos rfl] at side
          exact absurd (side.trans zero) (not_le.mpr positive)
      | false =>
          have bound := (abs_lt.mp close).1
          exact ⟨rfl, by linarith⟩

/-- A written price is on the grid, on its side and within a unit. -/
theorem price_on_grid (written : price conversion text x szDecimals roundUp = .ok s) :
    ∃ p : Decimal, text.parse s = some p ∧ (p.value : F) ∈ grid F szDecimals ∧
      (if roundUp then x ≤ (p.value : F) else (p.value : F) ≤ x) ∧
      |(p.value : F) - x| < 1 / 10 ^ places x szDecimals := by
  obtain ⟨⟨-, positive, -⟩, d, p, converted, rounded, -, rfl⟩ := (price_eq_ok exact).mp written
  have value := exact x d converted
  refine ⟨p, text.parse_format p, rounded_mem_grid value positive rounded, ?_⟩
  have side := round_side (F := F) d (places x szDecimals) roundUp
  rw [value] at side
  rw [rounded, Decimal.value_normalize]
  exact side

omit exact [FloorRing F] in
/-- `quantity` writes the truncated number. -/
theorem quantity_eq_ok {decimals : Nat} :
    quantity conversion text x decimals = .ok s ↔
      (F64.isFinite x = true ∧ 0 ≤ x) ∧ ∃ d, conversion x = some d ∧
        text.format (d.round decimals .toZero).normalize = s := by
  unfold quantity
  simp only [bind_eq_ok, ensure_eq_ok, context_eq_ok, pure_eq_ok, exists_const, ge_iff_le]

omit [FloorRing F] in
/-- A written size is never above the number. -/
theorem quantity_le {decimals : Nat} (written : quantity conversion text x decimals = .ok s) :
    ∃ q : Decimal, text.parse s = some q ∧ 0 ≤ (q.value : F) ∧ (q.value : F) ≤ x ∧
      x < (q.value : F) + 1 / 10 ^ decimals ∧ q.scale ≤ decimals := by
  obtain ⟨⟨-, nonneg⟩, d, converted, rfl⟩ := quantity_eq_ok.mp written
  have value := exact x d converted
  refine ⟨_, text.parse_format _, ?_⟩
  rw [Decimal.value_normalize, ← value]
  obtain ⟨below, close⟩ := Decimal.round_down (F := F) d decimals
    (.inr ⟨(rfl : Decimal.Strategy.toZero = _), value ▸ nonneg⟩)
  exact ⟨Decimal.round_nonneg (value ▸ nonneg), below, close,
    Decimal.normalize_scale_le.trans Decimal.round_scale_le⟩

/-- The last digit which a price keeps. -/
def step (x : F) (szDecimals : Nat) : F := 1 / 10 ^ places x szDecimals

omit exact in
/-- A tradeable order of a written price and size is built unchanged. -/
theorem wire_of_tradeable (exact : ∀ x d, conversion x = some d → (d.value : F) = x) {y : F}
    {a : Asset} {id : Nat} {buy reduce : Bool} {tif px sz : String} {cloid : Option String}
    (priced : price conversion text x a.szDecimals roundUp = .ok px)
    (sized : quantity conversion text y a.szDecimals = .ok sz)
    (accepted : tradeable text px sz reduce = .ok true) (inForce : tif ∈ timesInForce)
    (identified : ∀ c ∈ cloid, validCloid c = true) :
    wire text id a buy px sz tif reduce cloid = .ok ⟨id, buy, px, sz, reduce, tif, cloid⟩ := by
  obtain ⟨⟨-, positive, few⟩, d, p, converted, rounded, above, rfl⟩ := (price_eq_ok exact).mp priced
  obtain ⟨-, q, -, rfl⟩ := quantity_eq_ok.mp sized
  have valid : validatePrice text (text.format p) a.szDecimals = .ok p :=
    (validatePrice_rounded (exact x d converted) positive rounded few).mpr above
  have short : (q.round a.szDecimals .toZero).normalize.scale ≤ a.szDecimals :=
    Decimal.normalize_scale_le.trans Decimal.round_scale_le
  unfold tradeable at accepted
  simp only [text.parse_format, context, bind_eq_ok, ensure_eq_ok, pure_eq_ok, Except.ok.injEq,
    exists_eq_left', decide_eq_true_eq] at accepted
  obtain ⟨_, -, size, notional⟩ := accepted
  unfold wire
  simp only [valid, text.parse_format, context, bind_eq_ok, ensure_eq_ok, pure_eq_ok,
    Except.ok.injEq, exists_eq_left', Decimal.normalize_normalize]
  exact ⟨(), ⟨size, short⟩, (), inForce, (), notional, (), identified, trivial⟩

end Results

/-- Prices lie on the grid of the exchange on the requested side and within one step, sizes are
never rounded up, and a tradeable order is built unchanged. -/
theorem orders_exchange_valid (exact : ∀ x d, conversion x = some d → (d.value : F) = x) :
    (∀ (x : F) (szDecimals : Nat) (roundUp : Bool), F64.isFinite x = true → 0 < x →
      szDecimals ≤ 6 →
      (∀ s, price conversion text x szDecimals roundUp = .ok s →
        ∃ p : Decimal, text.parse s = some p ∧ (p.value : F) ∈ grid F szDecimals ∧
          (if roundUp then x ≤ (p.value : F) else (p.value : F) ≤ x) ∧
          |(p.value : F) - x| < step x szDecimals) ∧
      ∀ error, price conversion text x szDecimals roundUp = .error error →
        conversion x = none ∨ roundUp = false ∧ x < step x szDecimals) ∧
    (∀ (x : F) (decimals : Nat) (s : String), quantity conversion text x decimals = .ok s →
      ∃ q : Decimal, text.parse s = some q ∧ 0 ≤ (q.value : F) ∧ (q.value : F) ≤ x) ∧
    ∀ (x y : F) (roundUp : Bool) (id : Nat) (a : Asset) (buy reduce : Bool) (px sz tif : String)
      (cloid : Option String), price conversion text x a.szDecimals roundUp = .ok px →
      quantity conversion text y a.szDecimals = .ok sz → tradeable text px sz reduce = .ok true →
      tif ∈ timesInForce → (∀ c ∈ cloid, validCloid c = true) →
      wire text id a buy px sz tif reduce cloid = .ok ⟨id, buy, px, sz, reduce, tif, cloid⟩ := by
  refine ⟨?_, ?_, ?_⟩
  · intro x szDecimals roundUp finite positive few
    constructor
    · intro s written
      exact price_on_grid exact written
    · intro error failed
      exact price_eq_error exact finite positive few failed
  · intro x decimals s written
    obtain ⟨q, parsed, nonneg, le, -⟩ := quantity_le exact written
    exact ⟨q, parsed, nonneg, le⟩
  · intro x y roundUp id a buy reduce px sz tif cloid priced sized accepted inForce identified
    exact wire_of_tradeable exact priced sized accepted inForce identified

end LpMaker.Hyperliquid.Orders

namespace LpMaker.Shipped

open Hyperliquid Orders

/-- The numbers with eight places. -/
def eightPlaces (x : ℚ) : Option Decimal :=
  if (x * 10 ^ 8).den = 1 then some (Decimal.mk (x * 10 ^ 8).num 8).normalize else none

theorem eightPlaces_exact : ∀ x d, eightPlaces x = some d → (d.value : ℚ) = x := by
  intro x d converted
  unfold eightPlaces at converted
  split_ifs at converted with whole
  cases converted
  have integral : ((x * 10 ^ 8).num : ℚ) = x * 10 ^ 8 := Rat.coe_int_num_of_den_eq_one whole
  rw [Decimal.value_normalize, Decimal.value, integral]
  norm_num

def ether : Asset := ⟨"ETH", 4, 25, false⟩

/-- A price which rounds up across a power of ten. -/
theorem price_across_ten : price eightPlaces Decimal.plain 9.99996 4 true = .ok "10" := by
  decide +kernel

/-- An opening order of twenty-eight dollars. -/
theorem opening_exchange_valid :
    (∃ p : Decimal, Decimal.plain.parse "2345.7" = some p ∧ (p.value : ℚ) ∈ grid ℚ 4 ∧
      2345.678 ≤ (p.value : ℚ) ∧ |(p.value : ℚ) - 2345.678| < step (2345.678 : ℚ) 4) ∧
    wire Decimal.plain 1 ether false "2345.7" "0.0123" "Alo" false none =
      .ok ⟨1, false, "2345.7", "0.0123", false, "Alo", none⟩ := by
  obtain ⟨prices, -, orders⟩ := @orders_exchange_valid ℚ _ _ _ Decimal.plain eightPlaces_exact
  have priced : price eightPlaces Decimal.plain 2345.678 4 true = .ok "2345.7" := by
    decide +kernel
  have sized : quantity eightPlaces Decimal.plain 0.0123456 4 = .ok "0.0123" := by decide +kernel
  have accepted : tradeable Decimal.plain "2345.7" "0.0123" false = .ok true := by decide +kernel
  constructor
  · exact (prices 2345.678 4 true rfl (by norm_num) (by omega)).1 _ priced
  · exact orders 2345.678 0.0123456 true 1 ether false false _ _ "Alo" none priced sized accepted
      (by decide) (by simp)

end LpMaker.Shipped
