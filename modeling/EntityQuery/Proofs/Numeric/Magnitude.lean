import EntityQuery.Numeric.Shortest
import Mathlib.Algebra.Order.Field.Power
import Mathlib.Tactic.FieldSimp
import Mathlib.Tactic.Linarith
import Mathlib.Tactic.NormNum
import Mathlib.Tactic.Positivity
import Mathlib.Tactic.Ring

/-!
# Magnitudes and decimals as rational numbers

The comparisons that decide about digits are made on natural numbers. Here they are said of the
rational numbers that the magnitude and the decimals stand for.
-/

namespace EntityQuery

/-- A power of which only the positive part of the exponent is left. -/
theorem zpow_mul_pow_toNat {b : ℚ} (hb : b ≠ 0) (i : ℤ) :
    b ^ i * b ^ (-i).toNat = b ^ i.toNat := by
  rw [← zpow_natCast, ← zpow_natCast, ← zpow_add₀ hb]
  congr 1
  omega

/-- The number that digits stand for. -/
def Digits.value (d : Digits) : ℚ :=
  d.digits * 10 ^ d.exponent

namespace Shortest

/-- Comparing natural numbers is comparing the scaled rationals. -/
theorem compareScaled_eq (a : ℕ) (i : ℤ) (b : ℕ) (j : ℤ) :
    compareScaled a i b j = compare ((a : ℚ) * 10 ^ i) ((b : ℚ) * 2 ^ j) := by
  have hscale : (0 : ℚ) < 10 ^ (-i).toNat * 2 ^ (-j).toNat := by positivity
  have hleft : ((a * Nat.pow 10 i.toNat * Nat.pow 2 (-j).toNat : ℕ) : ℚ) =
      (a : ℚ) * 10 ^ i * (10 ^ (-i).toNat * 2 ^ (-j).toNat) := by
    have hi := zpow_mul_pow_toNat (b := 10) (by norm_num) i
    push_cast [Nat.pow_eq]
    rw [← hi]
    ring
  have hright : ((b * Nat.pow 2 j.toNat * Nat.pow 10 (-i).toNat : ℕ) : ℚ) =
      (b : ℚ) * 2 ^ j * (10 ^ (-i).toNat * 2 ^ (-j).toNat) := by
    have hj := zpow_mul_pow_toNat (b := 2) (by norm_num) j
    push_cast [Nat.pow_eq]
    rw [← hj]
    ring
  rw [compareScaled, ← cmp_eq_compare, ← cmp_eq_compare,
    ← (Nat.strictMono_cast (α := ℚ)).cmp_map_eq, hleft, hright]
  exact (strictMono_mul_right_of_pos hscale).cmp_map_eq _ _

namespace Magnitude

def value (x : Magnitude) : ℚ :=
  x.m * 2 ^ x.q

/-- The midpoint to the float below. -/
def low (x : Magnitude) : ℚ :=
  x.value - (if x.narrow then 1 else 2) * 2 ^ (x.q - 2)

/-- The midpoint to the float above. -/
def high (x : Magnitude) : ℚ :=
  x.value + 2 * 2 ^ (x.q - 2)

/-- The number `r` rounds to the magnitude: it lies between the midpoints, which belong to the
magnitude if its significand is even. -/
def Rounds (x : Magnitude) (r : ℚ) : Prop :=
  (x.low < r ∨ Even x.m ∧ x.low = r) ∧ (r < x.high ∨ Even x.m ∧ r = x.high)

variable {x : Magnitude}

theorem quarter (q : ℤ) : (2 : ℚ) ^ q = 4 * 2 ^ (q - 2) := by
  rw [zpow_sub₀ (by norm_num)]
  norm_num
  ring

theorem low_eq (hm : 0 < x.m) :
    x.low = ((if x.narrow then 4 * x.m - 1 else 4 * x.m - 2 : ℕ) : ℚ) * 2 ^ (x.q - 2) := by
  rw [low, value, quarter]
  split
  · rw [Nat.cast_sub (by omega)]
    push_cast
    ring
  · rw [Nat.cast_sub (by omega)]
    push_cast
    ring

theorem high_eq (x : Magnitude) : x.high = ((4 * x.m + 2 : ℕ) : ℚ) * 2 ^ (x.q - 2) := by
  rw [high, value, quarter]
  push_cast
  ring

theorem readsBack_iff (hm : 0 < x.m) {d : Digits} : x.readsBack d = true ↔ x.Rounds d.value := by
  have heven : (x.m % 2 == 0) = true ↔ Even x.m := by
    rw [beq_iff_eq, Nat.even_iff]
  have hgt {a b : ℚ} : (compare a b == Ordering.gt) = true ↔ b < a := by
    rw [beq_iff_eq, compare_gt_iff_gt]
  have hlt {a b : ℚ} : (compare a b == Ordering.lt) = true ↔ a < b := by
    rw [beq_iff_eq, compare_lt_iff_lt]
  have heq {a b : ℚ} : (compare a b == Ordering.eq) = true ↔ a = b := by
    rw [beq_iff_eq, compare_eq_iff_eq]
  unfold readsBack
  dsimp only
  rw [compareScaled_eq, compareScaled_eq, ← high_eq, ← low_eq hm]
  simp only [Bool.and_eq_true, Bool.or_eq_true, heven, hgt, hlt, heq]
  rw [Rounds, Digits.value, eq_comm (a := x.low)]

/-- Between two numbers that round to the magnitude all do. -/
theorem Rounds.between {a b r : ℚ} (ha : x.Rounds a) (hb : x.Rounds b) (har : a ≤ r)
    (hrb : r ≤ b) : x.Rounds r := by
  constructor
  · rcases ha.1 with ha | ⟨heven, ha⟩
    · exact .inl (ha.trans_le har)
    · rcases har.lt_or_eq with har | rfl
      · exact .inl (ha ▸ har)
      · exact .inr ⟨heven, ha⟩
  · rcases hb.2 with hb | ⟨heven, hb⟩
    · exact .inl (hrb.trans_lt hb)
    · rcases hrb.lt_or_eq with hrb | rfl
      · exact .inl (hb ▸ hrb)
      · exact .inr ⟨heven, hb⟩

theorem rounds_value (x : Magnitude) : x.Rounds x.value := by
  have hgap : (0 : ℚ) < 2 ^ (x.q - 2) := by positivity
  constructor
  · left
    rw [low]
    split <;> linarith
  · left
    rw [high]
    linarith

end Magnitude

end Shortest

end EntityQuery
