import EntityQuery.Proofs.Numeric.Magnitude

/-!
# Rounding to floats

A quotient is rounded to a float that is off by half a unit in the last place at most, and the float
is finite if the quotient is below the midpoint between the largest float and the next power of two.
-/

namespace EntityQuery.Binary64

/-- The absolute value of a finite float. -/
def abs : Binary64 → ℚ
  | .finite _ exponent fraction => significand exponent fraction * 2 ^ scale exponent
  | _ => 0

/-- The midpoint between the largest float and the next power of two, from which on numbers are
rounded to infinity. -/
def overflow : ℚ :=
  (2 ^ 54 - 1) * 2 ^ (970 : ℤ)

theorem two_zpow_add (a b : ℤ) : (2 : ℚ) ^ (a + b) = 2 ^ a * 2 ^ b :=
  zpow_add₀ (by norm_num) a b

theorem overflow_add : overflow + 2 ^ (970 : ℤ) = 2 ^ (1024 : ℤ) := by
  rw [overflow, ← add_one_mul, sub_add_cancel, show (1024 : ℤ) = 54 + 970 by norm_num, two_zpow_add]
  rfl

/-- The row of floats in ascending order: at the scale `q` stands a significand `n` whose leading
bit is at its place or, at the least scale, below it. A significand that is twice too large is
carried. -/
theorem ofIndex_eq (negative : Bool) {q : ℤ} {n : ℕ} (hq : -1074 ≤ q) (hn : n ≤ 2 * hidden)
    (hleading : q = -1074 ∨ hidden ≤ n) (hfinite : q < 971 ∨ q = 971 ∧ n < 2 * hidden) :
    ∃ exponent fraction,
      ofIndex negative ((q + 1074).toNat * hidden + n) = .finite negative exponent fraction ∧
        (finite negative exponent fraction).abs = n * 2 ^ q := by
  have hpos : 0 < hidden := by decide
  have hdiv (n : ℕ) : ((q + 1074).toNat * hidden + n) / hidden = (q + 1074).toNat + n / hidden := by
    rw [Nat.mul_comm, Nat.mul_add_div hpos]
  have hmod (n : ℕ) : ((q + 1074).toNat * hidden + n) % hidden = n % hidden := by
    rw [Nat.mul_comm, Nat.mul_add_mod]
  rcases Nat.lt_or_ge n hidden with hlt | hge
  · -- Without a leading bit the scale is the least one.
    obtain rfl : q = -1074 := hleading.resolve_right (by omega)
    have hzero : n / hidden = 0 := Nat.div_eq_of_lt hlt
    refine ⟨_, _, dif_pos ?_, ?_⟩
    · rw [hdiv, hzero]
      decide
    · simp only [abs, significand, scale, hdiv, hmod, hzero, Nat.mod_eq_of_lt hlt]
      simp
  · rcases Nat.lt_or_ge n (2 * hidden) with hlt | hcarry
    · have hone : n / hidden = 1 := by
        rw [Nat.div_eq_iff hpos]
        omega
      have hrest : n % hidden = n - hidden := by
        rw [Nat.mod_eq_sub_mod hge, Nat.mod_eq_of_lt (by omega)]
      refine ⟨_, _, dif_pos ?_, ?_⟩
      · rw [hdiv, hone]
        omega
      · have hscale : ((max ((q + 1074).toNat + 1) 1 : ℕ) : ℤ) - 1075 = q := by omega
        simp only [abs, significand, scale, hdiv, hmod, hone, hrest, hscale]
        rw [if_neg (by omega), Nat.add_sub_cancel' hge]
    · obtain rfl : n = 2 * hidden := by omega
      have htwo : 2 * hidden / hidden = 2 := Nat.mul_div_cancel _ hpos
      have hrest : 2 * hidden % hidden = 0 := Nat.mul_mod_left ..
      refine ⟨_, _, dif_pos ?_, ?_⟩
      · rw [hdiv, htwo]
        omega
      · have hscale : ((max ((q + 1074).toNat + 2) 1 : ℕ) : ℤ) - 1075 = q + 1 := by omega
        simp only [abs, significand, scale, hdiv, hmod, htwo, hrest, hscale]
        rw [if_neg (by omega), two_zpow_add]
        push_cast
        ring

/-! ## Quotients -/

/-- Rounding is off by a half at most. -/
theorem roundEven_bounds (num : ℕ) {den : ℕ} (hden : 0 < den) :
    (roundEven num den : ℚ) ≤ num / den + 1 / 2 ∧
      (num : ℚ) / den ≤ roundEven num den + 1 / 2 := by
  have hden' : (0 : ℚ) < den := Nat.cast_pos.mpr hden
  -- All turns on how the rest compares with a half.
  have hsplit : (num : ℚ) / den = (num / den : ℕ) + (num % den : ℕ) / den := by
    rw [div_eq_iff hden'.ne', add_mul, div_mul_cancel₀ _ hden'.ne']
    exact_mod_cast (Nat.div_add_mod' num den).symm
  have hrest : (0 : ℚ) ≤ (num % den : ℕ) / den := by positivity
  have hlt : ((num % den : ℕ) : ℚ) / den < 1 := by
    rw [div_lt_one hden']
    exact_mod_cast Nat.mod_lt _ hden
  have hhalf : ((num % den : ℕ) : ℚ) / den ≤ 1 / 2 ↔ 2 * (num % den) ≤ den := by
    rw [div_le_div_iff₀ hden' (by norm_num), one_mul, mul_comm]
    exact_mod_cast Iff.rfl
  have hhalf' : 1 / 2 ≤ ((num % den : ℕ) : ℚ) / den ↔ den ≤ 2 * (num % den) := by
    rw [div_le_div_iff₀ (by norm_num) hden', one_mul, mul_comm]
    exact_mod_cast Iff.rfl
  have hfloor (h : 2 * (num % den) ≤ den) :
      ((num / den : ℕ) : ℚ) ≤ num / den + 1 / 2 ∧
        (num : ℚ) / den ≤ (num / den : ℕ) + 1 / 2 := by
    have := hhalf.mpr h
    constructor <;> linarith
  have hceiling (h : den ≤ 2 * (num % den)) :
      ((num / den + 1 : ℕ) : ℚ) ≤ num / den + 1 / 2 ∧
        (num : ℚ) / den ≤ (num / den + 1 : ℕ) + 1 / 2 := by
    have := hhalf'.mpr h
    push_cast
    constructor <;> linarith
  unfold roundEven
  dsimp only
  split
  · rename_i h
    exact hfloor (compare_lt_iff_lt.mp h).le
  · rename_i h
    exact hceiling (compare_gt_iff_gt.mp h).le
  · -- Halfway both neighbours are as near, whichever of them is even.
    rename_i h
    have heq := compare_eq_iff_eq.mp h
    split
    · exact hfloor heq.le
    · exact hceiling heq.ge

theorem shifted_div (num : ℕ) {den : ℕ} (hden : 0 < den) (power : ℤ) :
    0 < (shifted num den power).2 ∧
      ((shifted num den power).1 : ℚ) / (shifted num den power).2 = num / den * 2 ^ power := by
  have hpower := zpow_mul_pow_toNat (b := 2) (by norm_num) power
  have hden' : (den : ℚ) ≠ 0 := Nat.cast_ne_zero.mpr hden.ne'
  refine ⟨Nat.mul_pos hden (Nat.pow_pos (by decide)), ?_⟩
  simp only [shifted, Nat.pow_eq, Nat.cast_mul, Nat.cast_pow, Nat.cast_ofNat]
  rw [← hpower]
  field_simp

theorem log2_bounds {n : ℕ} (hn : n ≠ 0) :
    (2 : ℚ) ^ (n.log2 : ℤ) ≤ n ∧ (n : ℚ) < 2 ^ ((n.log2 : ℤ) + 1) := by
  have hlower : 2 ^ n.log2 ≤ n := Nat.log2_self_le hn
  have hupper : n < 2 ^ (n.log2 + 1) := Nat.lt_log2_self
  constructor
  · rw [zpow_natCast]
    exact_mod_cast hlower
  · rw [← Nat.cast_succ, zpow_natCast]
    exact_mod_cast hupper

/-- The bit lengths give the length of the quotient up to one. -/
theorem log2_quotient_bounds {num den : ℕ} (hnum : num ≠ 0) (hden : den ≠ 0) :
    (2 : ℚ) ^ ((num.log2 : ℤ) - den.log2 - 1) < num / den ∧
      (num : ℚ) / den < 2 ^ ((num.log2 : ℤ) - den.log2 + 1) := by
  obtain ⟨hnumLow, hnumHigh⟩ := log2_bounds hnum
  obtain ⟨hdenLow, hdenHigh⟩ := log2_bounds hden
  have hpos : (0 : ℚ) < den := Nat.cast_pos.mpr (Nat.pos_of_ne_zero hden)
  constructor
  · rw [lt_div_iff₀ hpos]
    calc (2 : ℚ) ^ ((num.log2 : ℤ) - den.log2 - 1) * den
        < 2 ^ ((num.log2 : ℤ) - den.log2 - 1) * 2 ^ ((den.log2 : ℤ) + 1) := by gcongr
      _ = 2 ^ (num.log2 : ℤ) := by rw [← two_zpow_add]; congr 1; ring
      _ ≤ num := hnumLow
  · rw [div_lt_iff₀ hpos]
    calc (num : ℚ) < 2 ^ ((num.log2 : ℤ) + 1) := hnumHigh
      _ = 2 ^ ((num.log2 : ℤ) - den.log2 + 1) * 2 ^ (den.log2 : ℤ) := by
          rw [← two_zpow_add]; congr 1; ring
      _ ≤ 2 ^ ((num.log2 : ℤ) - den.log2 + 1) * den := by gcongr

/-- The comparison that settles the scale is one of the quotient with a power of two. -/
theorem shifted_ge_iff (num : ℕ) {den : ℕ} (hden : 0 < den) (q : ℤ) :
    2 * hidden * (shifted num den (-q)).2 ≤ (shifted num den (-q)).1 ↔
      (2 : ℚ) ^ (q + 53) ≤ num / den := by
  obtain ⟨hshifted, hratio⟩ := shifted_div num hden (-q)
  have hcast : 2 * hidden * (shifted num den (-q)).2 ≤ (shifted num den (-q)).1 ↔
      (2 : ℚ) ^ 53 * (shifted num den (-q)).2 ≤ (shifted num den (-q)).1 := by
    rw [show 2 * hidden = 2 ^ 53 by decide]
    exact_mod_cast Iff.rfl
  rw [hcast, ← le_div_iff₀ (by exact_mod_cast hshifted), hratio, zpow_neg, ← div_eq_mul_inv,
    le_div_iff₀ (by positivity), add_comm, two_zpow_add]
  rfl

/-- The scale is the one at which the quotient has 53 bits, or the least one. -/
theorem scaleOf_bounds {num den : ℕ} (hnum : num ≠ 0) (hden : den ≠ 0) :
    -1074 ≤ scaleOf num den ∧ (num : ℚ) / den < 2 ^ (scaleOf num den + 53) ∧
      (scaleOf num den = -1074 ∨ (2 : ℚ) ^ (scaleOf num den + 52) ≤ num / den) := by
  obtain ⟨hlower, hupper⟩ := log2_quotient_bounds hnum hden
  unfold scaleOf
  dsimp only
  set bits : ℤ := num.log2 - den.log2
  set guess : ℤ := max (bits - 53) (-1074) with hguess
  simp only [shifted_ge_iff num (Nat.pos_of_ne_zero hden)]
  -- The guess is corrected where the quotient needs one bit more than the lengths tell.
  split
  · rename_i h
    refine ⟨by omega, ?_, .inr ?_⟩
    · refine hupper.trans_le (zpow_le_zpow_right₀ (by norm_num) ?_)
      omega
    · rwa [show guess + 1 + 52 = guess + 53 by ring]
  · rename_i h
    refine ⟨by omega, not_le.mp h, ?_⟩
    rcases le_or_gt (bits - 53) (-1074) with hfloor | hfloor
    · exact .inl (by omega)
    · right
      rw [show guess + 52 = bits - 1 by omega]
      exact hlower.le

/-- A number rounded to the significand `n` at the scale at which it has 53 bits, or at the least
one. -/
structure IsRounded (r : ℚ) (q : ℤ) (n : ℕ) : Prop where
  le_scale : -1074 ≤ q
  lt_next : r < 2 ^ (q + 53)
  leading : q = -1074 ∨ (2 : ℚ) ^ (q + 52) ≤ r
  le_add_half : (n : ℚ) ≤ r / 2 ^ q + 1 / 2
  sub_half_le : r / 2 ^ q ≤ (n : ℚ) + 1 / 2

theorem isRounded_ofRatio {num den : ℕ} (hnum : num ≠ 0) (hden : den ≠ 0) :
    IsRounded (num / den) (scaleOf num den)
      (roundEven (shifted num den (-scaleOf num den)).1
        (shifted num den (-scaleOf num den)).2) := by
  obtain ⟨hscale, hupper, hlower⟩ := scaleOf_bounds hnum hden
  obtain ⟨hshifted, hratio⟩ := shifted_div num (Nat.pos_of_ne_zero hden) (-scaleOf num den)
  obtain ⟨hnear, hnear'⟩ := roundEven_bounds (shifted num den (-scaleOf num den)).1 hshifted
  rw [hratio, zpow_neg, ← div_eq_mul_inv] at hnear hnear'
  exact ⟨hscale, hupper, hlower, hnear, hnear'⟩

namespace IsRounded

variable {r : ℚ} {q : ℤ} {n : ℕ}

/-- Half a unit in the last place is the error. -/
theorem value_le (h : IsRounded r q n) : (n : ℚ) * 2 ^ q ≤ r + 2 ^ q / 2 := by
  have hnear := h.le_add_half
  calc (n : ℚ) * 2 ^ q ≤ (r / 2 ^ q + 1 / 2) * 2 ^ q := by gcongr
    _ = r + 2 ^ q / 2 := by field_simp

theorem le_two_hidden (h : IsRounded r q n) : n ≤ 2 * hidden := by
  have hbound : r / 2 ^ q < 2 ^ 53 := by
    rw [div_lt_iff₀ (by positivity), ← zpow_natCast, ← two_zpow_add, add_comm]
    exact h.lt_next
  have hcast : (n : ℚ) < 2 ^ 53 + 1 := by linarith [h.le_add_half]
  have hnat : n < 2 ^ 53 + 1 := by exact_mod_cast hcast
  rw [show 2 * hidden = 2 ^ 53 by decide]
  omega

theorem hidden_le (h : IsRounded r q n) : q = -1074 ∨ hidden ≤ n := by
  refine h.leading.imp_right fun hlower => ?_
  have hbound : (2 : ℚ) ^ 52 ≤ r / 2 ^ q := by
    rw [le_div_iff₀ (by positivity), ← zpow_natCast, ← two_zpow_add, add_comm]
    exact hlower
  have hcast : (2 : ℚ) ^ 52 < n + 1 := by linarith [h.sub_half_le]
  have hnat : 2 ^ 52 < n + 1 := by exact_mod_cast hcast
  rw [show hidden = 2 ^ 52 by decide]
  omega

/-- Below the overflow the scale is one of the floats, and at the largest one nothing is carried. -/
theorem scale_le (h : IsRounded r q n) (hlt : r < overflow) :
    q < 971 ∨ q = 971 ∧ n < 2 * hidden := by
  rcases h.leading with hleast | hlower
  · exact .inl (by omega)
  · have hpower : (2 : ℚ) ^ (q + 52) < 2 ^ (1024 : ℤ) := by
      refine (hlower.trans_lt hlt).trans ?_
      rw [← overflow_add]
      exact lt_add_of_pos_right _ (by positivity)
    have hq : q + 52 < 1024 := (zpow_lt_zpow_iff_right₀ (by norm_num)).mp hpower
    refine (show q < 971 ∨ q = 971 by omega).imp_right fun hlast => ⟨hlast, ?_⟩
    have hhalf : (2 : ℚ) ^ (971 : ℤ) / 2 = 2 ^ (970 : ℤ) := by
      rw [show (971 : ℤ) = 970 + 1 by norm_num, two_zpow_add, zpow_one, mul_div_cancel_right₀]
      norm_num
    have hproduct : (n : ℚ) * 2 ^ (971 : ℤ) < 2 ^ 53 * 2 ^ (971 : ℤ) := by
      calc (n : ℚ) * 2 ^ (971 : ℤ) ≤ r + 2 ^ (971 : ℤ) / 2 := hlast ▸ h.value_le
        _ < overflow + 2 ^ (970 : ℤ) := by rw [hhalf]; gcongr
        _ = 2 ^ 53 * 2 ^ (971 : ℤ) := by rw [overflow_add]; exact two_zpow_add 53 971
    have hcast : (n : ℚ) < 2 ^ 53 := lt_of_mul_lt_mul_right hproduct (by positivity)
    exact_mod_cast hcast

/-- From one on the error is a relative one. -/
theorem value_le_mul (h : IsRounded r q n) (hone : 1 ≤ r) :
    (n : ℚ) * 2 ^ q ≤ r * (1 + 2 ^ (-53 : ℤ)) := by
  have herror : (2 : ℚ) ^ q / 2 ≤ r * 2 ^ (-53 : ℤ) := by
    rcases h.leading with hleast | hlower
    · rw [hleast]
      calc (2 : ℚ) ^ (-1074 : ℤ) / 2 ≤ 2 ^ (-1074 : ℤ) := half_le_self (by positivity)
        _ ≤ 2 ^ (-53 : ℤ) := zpow_le_zpow_right₀ (by norm_num) (by norm_num)
        _ = 1 * 2 ^ (-53 : ℤ) := (one_mul _).symm
        _ ≤ r * 2 ^ (-53 : ℤ) := by gcongr
    · calc (2 : ℚ) ^ q / 2 = 2 ^ (q + 52) * 2 ^ (-53 : ℤ) := by
            rw [← two_zpow_add, show q + 52 + -53 = q + -1 by ring, two_zpow_add]
            rfl
        _ ≤ r * 2 ^ (-53 : ℤ) := by gcongr
  calc (n : ℚ) * 2 ^ q ≤ r + 2 ^ q / 2 := h.value_le
    _ ≤ r + r * 2 ^ (-53 : ℤ) := by gcongr
    _ = r * (1 + 2 ^ (-53 : ℤ)) := by ring

end IsRounded

/-- **A quotient below the overflow is rounded to a finite float**, which for quotients from one on
is larger by a relative error of `2 ^ -53` at most. -/
theorem ofRatio_finite (negative : Bool) (num : ℕ) {den : ℕ} (hden : den ≠ 0)
    (hlt : (num : ℚ) / den < overflow) :
    ∃ exponent fraction, ofRatio negative num den = .finite negative exponent fraction ∧
      ((1 : ℚ) ≤ num / den →
        (finite negative exponent fraction).abs ≤ num / den * (1 + 2 ^ (-53 : ℤ))) := by
  by_cases hnum : num = 0
  · refine ⟨⟨0, by decide⟩, ⟨0, by decide⟩, ?_, fun hone => ?_⟩
    · rw [ofRatio, if_pos hnum]
      rfl
    · rw [hnum] at hone
      norm_num at hone
  · have hrounded := isRounded_ofRatio hnum hden
    obtain ⟨exponent, fraction, hindex, habs⟩ := ofIndex_eq negative hrounded.le_scale
      hrounded.le_two_hidden hrounded.hidden_le (hrounded.scale_le hlt)
    refine ⟨exponent, fraction, ?_, fun hone => ?_⟩
    · rw [ofRatio, if_neg hnum]
      exact hindex
    · rw [habs]
      exact hrounded.value_le_mul hone

theorem abs_nonneg (x : Binary64) : 0 ≤ x.abs := by
  unfold abs
  split
  · positivity
  · rfl

/-- A product below the overflow is finite. -/
theorem isFinite_mul {s t : Bool} {e g : Fin 2047} {f h : Fin hidden}
    (hlt : (finite s e f).abs * (finite t g h).abs < overflow) :
    (mul (.finite s e f) (.finite t g h)).isFinite = true := by
  obtain ⟨hden, hratio⟩ := shifted_div (significand e f * significand g h) Nat.one_pos
    (scale e + scale g)
  have hproduct : ((significand e f * significand g h : ℕ) : ℚ) / (1 : ℕ) *
      2 ^ (scale e + scale g) = (finite s e f).abs * (finite t g h).abs := by
    rw [two_zpow_add, abs, abs]
    push_cast
    ring
  rw [hproduct] at hratio
  obtain ⟨exponent, fraction, hround, -⟩ := ofRatio_finite (s != t) _ hden.ne' (hratio ▸ hlt)
  exact congrArg isFinite hround

end EntityQuery.Binary64
