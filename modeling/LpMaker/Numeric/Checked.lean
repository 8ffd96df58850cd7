import Mathlib

/-!
# Checked arithmetic of machine words

Addition and multiplication which give nothing instead of a wrapped result, and the subtraction
that stops at zero. A present result is the exact one.
-/

namespace Checked

variable {w : Nat} {a b c : BitVec w}

/-- `checked_add`. -/
def add (a b : BitVec w) : Option (BitVec w) :=
  if a.toNat + b.toNat < 2 ^ w then some (a + b) else none

/-- `checked_mul`. -/
def mul (a b : BitVec w) : Option (BitVec w) :=
  if a.toNat * b.toNat < 2 ^ w then some (a * b) else none

/-- `saturating_sub`. -/
def saturatingSub (a b : BitVec w) : BitVec w := if b.toNat ≤ a.toNat then a - b else 0

/-- The greater of two words. -/
def greater (a b : BitVec w) : BitVec w := if a.toNat ≤ b.toNat then b else a

theorem add_eq_some : add a b = some c ↔ a.toNat + b.toNat = c.toNat := by
  unfold add
  constructor
  · intro added
    split_ifs at added with fits
    cases added
    rw [BitVec.toNat_add, Nat.mod_eq_of_lt fits]
  · intro exact
    have fits : a.toNat + b.toNat < 2 ^ w := exact ▸ c.isLt
    rw [if_pos fits, Option.some_inj]
    apply BitVec.eq_of_toNat_eq
    rw [BitVec.toNat_add, Nat.mod_eq_of_lt fits, exact]

theorem mul_eq_some : mul a b = some c ↔ a.toNat * b.toNat = c.toNat := by
  unfold mul
  constructor
  · intro multiplied
    split_ifs at multiplied with fits
    cases multiplied
    rw [BitVec.toNat_mul, Nat.mod_eq_of_lt fits]
  · intro exact
    have fits : a.toNat * b.toNat < 2 ^ w := exact ▸ c.isLt
    rw [if_pos fits, Option.some_inj]
    apply BitVec.eq_of_toNat_eq
    rw [BitVec.toNat_mul, Nat.mod_eq_of_lt fits, exact]

@[simp] theorem toNat_greater : (greater a b).toNat = max a.toNat b.toNat := by
  unfold greater
  split_ifs with le
  · exact (Nat.max_eq_right le).symm
  · exact (Nat.max_eq_left (Nat.le_of_not_le le)).symm

@[simp] theorem toNat_saturatingSub : (saturatingSub a b).toNat = a.toNat - b.toNat := by
  unfold saturatingSub
  split_ifs with le
  · exact BitVec.toNat_sub_of_le le
  · rw [Nat.sub_eq_zero_of_le (Nat.le_of_not_le le)]
    rfl

end Checked
