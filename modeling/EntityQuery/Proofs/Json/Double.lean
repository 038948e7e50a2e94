import EntityQuery.Proofs.Json.Reading
import EntityQuery.Proofs.Json.Writing
import EntityQuery.Proofs.Numeric.Rounding

/-!
# Reading written numbers

An integer of 64 bits is read as itself. Another number is read through the product or the quotient
of two floats. For the number that is written for a float the product does not overflow, so what is
written can always be read again.
-/

namespace EntityQuery.Json

open Binary64

/-! ## Significands -/

/-- As long as 64 bits hold the significand, every digit is kept. -/
theorem appendDigits_eq {significand : ℕ} {ds : List Char}
    (h : Nat.ofDigitChars 10 ds significand ≤ maxSignificand) :
    appendDigits significand ds = (Nat.ofDigitChars 10 ds significand, ds.length) := by
  induction ds generalizing significand with
  | nil => rfl
  | cons d ds ih =>
    rw [Nat.ofDigitChars_cons, Nat.mul_comm] at h ⊢
    have hnext : significand * 10 + (d.toNat - 48) ≤ maxSignificand :=
      (Text.le_ofDigitChars _ ds).trans h
    have hrest : appendDigits (significand * 10 + (d.toNat - 48)) ds =
        (Nat.ofDigitChars 10 ds (significand * 10 + (d.toNat - 48)), ds.length) := ih h
    rw [appendDigits, if_pos hnext, hrest]
    rfl

theorem Numeral.double?_eq {n : Numeral} (h : n.digits ≤ maxSignificand) :
    n.double? =
      (scaleByTen? n.digits n.place).map fun x => if n.negative then x.neg else x := by
  have hdigits : n.digits = Nat.ofDigitChars 10 n.fraction (Nat.ofDigitChars 10 n.whole 0) :=
    Nat.ofDigitChars_append ..
  rw [hdigits] at h
  have hwhole := appendDigits_eq ((Text.le_ofDigitChars _ n.fraction).trans h)
  have hfraction := appendDigits_eq h
  rw [double?, hwhole]
  dsimp only
  rw [hfraction, hdigits, place]
  congr 2
  dsimp only
  omega

/-! ## Scaling -/

theorem ofNat_finite {n : ℕ} (hn : 1 ≤ n) (h : (n : ℚ) < overflow) :
    ∃ exponent fraction, Binary64.ofNat n = .finite false exponent fraction ∧
      (finite false exponent fraction).abs ≤ n * (1 + 2 ^ (-53 : ℤ)) := by
  obtain ⟨exponent, fraction, hround, habs⟩ := ofRatio_finite false n Nat.one_ne_zero
    (by rwa [Nat.cast_one, div_one])
  rw [Nat.cast_one, div_one] at habs
  exact ⟨exponent, fraction, hround, habs (by exact_mod_cast hn)⟩

/-- The product of two rounded numbers is off by the errors of both factors. -/
theorem isFinite_mul_ofNat {m n : ℕ} (hm : 1 ≤ m) (hn : 1 ≤ n)
    (h : (m : ℚ) * n * (1 + 2 ^ (-53 : ℤ)) ^ 2 < overflow) :
    (mul (Binary64.ofNat m) (Binary64.ofNat n)).isFinite = true := by
  have hone : (1 : ℚ) ≤ (1 + 2 ^ (-53 : ℤ)) ^ 2 := by norm_num
  have hm' : (1 : ℚ) ≤ m := by exact_mod_cast hm
  have hn' : (1 : ℚ) ≤ n := by exact_mod_cast hn
  have hproduct : (m : ℚ) * n < overflow :=
    (le_mul_of_one_le_right (by positivity) hone).trans_lt h
  obtain ⟨e, f, hx, hxabs⟩ := ofNat_finite hm
    ((le_mul_of_one_le_right (by positivity) hn').trans_lt hproduct)
  obtain ⟨g, k, hy, hyabs⟩ := ofNat_finite hn
    ((le_mul_of_one_le_left (by positivity) hm').trans_lt hproduct)
  rw [hx, hy]
  refine isFinite_mul (lt_of_le_of_lt ?_ h)
  calc (finite false e f).abs * (finite false g k).abs
      ≤ m * (1 + 2 ^ (-53 : ℤ)) * (n * (1 + 2 ^ (-53 : ℤ))) :=
        mul_le_mul hxabs hyabs (abs_nonneg _) (by positivity)
    _ = m * n * (1 + 2 ^ (-53 : ℤ)) ^ 2 := by ring

/-- A number is in range if there is room for the errors of both factors. -/
theorem isSome_scaleByTen? {significand : ℕ} {exponent : ℤ} (hexponent : exponent ≤ maxPower)
    (h : significand * 10 ^ exponent * (1 + 2 ^ (-53 : ℤ)) ^ 2 < overflow) :
    (scaleByTen? significand exponent).isSome = true := by
  unfold scaleByTen?
  dsimp only
  split
  · rfl
  · rename_i hnonneg
    split
    · rfl
    · rename_i hzero
      obtain ⟨power, rfl⟩ := Int.eq_ofNat_of_zero_le (not_lt.mp hnonneg)
      have hpos : 1 ≤ significand := by
        rcases Nat.eq_zero_or_pos significand with rfl | hpos
        · exact absurd rfl hzero
        · exact hpos
      have hbound : (significand : ℚ) * (10 ^ power : ℕ) * (1 + 2 ^ (-53 : ℤ)) ^ 2 < overflow := by
        rw [zpow_natCast] at h
        exact_mod_cast h
      have hfinite := isFinite_mul_ofNat hpos (Nat.pow_pos (by decide)) hbound
      rw [Int.toNat_natCast, powerOfTen, show Nat.pow 10 power = 10 ^ power from rfl,
        if_pos hfinite]
      rfl

/-! ## Floats -/

/-- Up to what numbers round to a float other than the three largest. -/
theorem high_le {x : Shortest.Magnitude} (hx : x.IsFloat)
    (hlarge : x.q = 971 → x.m + 3 < 2 ^ 53) : x.high ≤ (2 ^ 54 - 7) * 2 ^ (970 : ℤ) := by
  have hm := hx.lt
  have hhigh : x.high = (2 * x.m + 1 : ℕ) * 2 ^ (x.q - 1) := by
    rw [Shortest.Magnitude.high, Shortest.Magnitude.value, Shortest.Magnitude.quarter,
      show x.q - 1 = x.q - 2 + 1 by ring, two_zpow_add]
    push_cast
    ring
  rw [hhigh]
  rcases hx.scale_le.lt_or_eq with hq | hq
  · -- One scale lower a full significand stays far below the bound.
    have hnat : 2 * x.m + 1 < 2 ^ 54 := by omega
    have hcast : ((2 * x.m + 1 : ℕ) : ℚ) < 2 ^ 54 := by exact_mod_cast hnat
    have hscale : (2 : ℚ) ^ (x.q - 1) ≤ 2 ^ (969 : ℤ) :=
      zpow_le_zpow_right₀ (by norm_num) (by omega)
    calc ((2 * x.m + 1 : ℕ) : ℚ) * 2 ^ (x.q - 1) ≤ 2 ^ 54 * 2 ^ (969 : ℤ) := by gcongr
      _ ≤ (2 ^ 54 - 7) * 2 * 2 ^ (969 : ℤ) := by gcongr; norm_num
      _ = (2 ^ 54 - 7) * 2 ^ (970 : ℤ) := by
        rw [show (970 : ℤ) = 1 + 969 by norm_num, two_zpow_add, mul_assoc, zpow_one]
  · -- At the largest scale the last significands are excluded.
    have hnat : 2 * x.m + 1 + 7 ≤ 2 ^ 54 := by
      have := hlarge hq
      omega
    have hcast : ((2 * x.m + 1 : ℕ) : ℚ) ≤ 2 ^ 54 - 7 := by
      rw [le_sub_iff_add_le]
      exact_mod_cast hnat
    rw [hq]
    exact mul_le_mul_of_nonneg_right hcast (by positivity)

/-- A number that rounds to a float other than the three largest leaves room for the errors. -/
theorem rounds_lt_overflow {x : Shortest.Magnitude} (hx : x.IsFloat) {r : ℚ} (hr : x.Rounds r)
    (hlarge : x.q = 971 → x.m + 3 < 2 ^ 53) : r * (1 + 2 ^ (-53 : ℤ)) ^ 2 < overflow := by
  have hle : r ≤ x.high := hr.2.elim le_of_lt fun h => h.2.le
  calc r * (1 + 2 ^ (-53 : ℤ)) ^ 2
      ≤ (2 ^ 54 - 7) * 2 ^ (970 : ℤ) * (1 + 2 ^ (-53 : ℤ)) ^ 2 :=
        mul_le_mul_of_nonneg_right (hle.trans (high_le hx hlarge)) (by positivity)
    _ = (2 ^ 54 - 7) * (1 + 2 ^ (-53 : ℤ)) ^ 2 * 2 ^ (970 : ℤ) := mul_right_comm ..
    _ < overflow := mul_lt_mul_of_pos_right (by norm_num) (by positivity)

/-- A number of more than 309 digits is larger than every float. -/
theorem place_le_maxPower {digits : ℕ} {place : ℤ} (hpos : 0 < digits)
    (h : digits * 10 ^ place * (1 + 2 ^ (-53 : ℤ)) ^ 2 < overflow) : place ≤ maxPower := by
  by_contra hlong
  have hdigits : (1 : ℚ) ≤ digits := by exact_mod_cast hpos
  have hten : (2 : ℚ) ^ (1024 : ℤ) ≤ 10 ^ (309 : ℤ) := by
    have hnat : 2 ^ 1024 ≤ 10 ^ 309 := by decide +kernel
    exact_mod_cast hnat
  have hoverflow : overflow ≤ (2 : ℚ) ^ (1024 : ℤ) := by
    rw [← overflow_add]
    exact le_add_of_nonneg_right (by positivity)
  have hpower : (10 : ℚ) ^ (309 : ℤ) ≤ digits * 10 ^ place * (1 + 2 ^ (-53 : ℤ)) ^ 2 :=
    calc (10 : ℚ) ^ (309 : ℤ) ≤ 10 ^ place :=
          zpow_le_zpow_right₀ (by norm_num) (not_le.mp hlong)
      _ ≤ digits * 10 ^ place := le_mul_of_one_le_left (by positivity) hdigits
      _ ≤ digits * 10 ^ place * (1 + 2 ^ (-53 : ℤ)) ^ 2 :=
          le_mul_of_one_le_right (by positivity) (by norm_num)
  exact absurd ((hpower.trans_lt h).trans_le (hoverflow.trans hten)) (lt_irrefl _)

/-- The three largest floats leave no room for the errors of both factors. -/
theorem isSome_double?_largest (negative : Bool) {m : ℕ} (hm : m < 2 ^ 53)
    (hlarge : 2 ^ 53 ≤ m + 3) :
    (Style.interchange.layout.numeral negative ⟨m, 971, false⟩).double?.isSome = true := by
  obtain rfl | rfl | rfl : m = 2 ^ 53 - 1 ∨ m = 2 ^ 53 - 2 ∨ m = 2 ^ 53 - 3 := by omega
  all_goals cases negative <;> decide +kernel

/-- **What is written for a finite float can be read again.** -/
theorem isSome_double?_numeral (negative : Bool) (exponent : Fin 2047)
    (fraction : Fin Binary64.hidden) :
    (Style.interchange.layout.numeral negative (.ofFields exponent fraction)).double?.isSome =
      true := by
  set x := Shortest.Magnitude.ofFields exponent fraction with hxdef
  by_cases hm : x.m = 0
  · rw [Layout.numeral, if_pos hm]
    cases negative <;> decide +kernel
  · have hx := Shortest.Magnitude.isFloat_ofFields exponent fraction hm
    rw [← hxdef] at hx
    by_cases hlarge : x.q = 971 ∧ 2 ^ 53 ≤ x.m + 3
    · -- A narrow gap lies below powers of two only, and none of the largest is one.
      have hnarrow : x.narrow = false := by
        by_contra h
        have := hx.eq_of_narrow (by simpa using h)
        omega
      have heq : x = ⟨x.m, 971, false⟩ := by
        rw [← hlarge.1, ← hnarrow]
      rw [heq]
      exact isSome_double?_largest negative hx.lt hlarge.2
    · obtain ⟨hle, hpos, hvalue⟩ := Layout.digits_numeral (l := Style.interchange.layout) le_rfl
        negative hx
      have hrounds := hx.shortest_rounds Style.interchange.layout.tie
      rw [← hvalue] at hrounds
      have hlt := rounds_lt_overflow hx hrounds fun hq => by
        by_contra h
        exact hlarge ⟨hq, by omega⟩
      rw [Numeral.double?_eq (hle.trans (by decide)), Option.isSome_map]
      refine isSome_scaleByTen? ?_ hlt
      exact place_le_maxPower hpos hlt

/-- A number that is not written as an integer is read as a float. -/
theorem Numeral.json?_of_isInteger {n : Numeral} (h : n.isInteger = false) :
    n.json? = n.double?.map .double := by
  have hint : n.int? = none := by
    refine if_pos ?_
    simpa only [isInteger, Bool.and_eq_false_iff, List.isEmpty_eq_false_iff,
      Option.isNone_eq_false_iff] using h
  rw [json?, hint]

/-- The float that is read where a float has been written. -/
def reread (x : Binary64) : Binary64 :=
  match ofText? 0 (Style.interchange.compact (.double x)) with
  | some (.double y) => y
  | _ => x

/-- What is written for a finite float is read as a float. -/
theorem json?_source_double {x : Binary64} (h : x.isFinite = true) :
    (Style.interchange.source (.double x)).json? = some (.double (reread x)) := by
  cases x with
  | nan => cases h
  | infinite => cases h
  | finite negative exponent fraction =>
    obtain ⟨y, hy⟩ := Option.isSome_iff_exists.mp
      (isSome_double?_numeral negative exponent fraction)
    set x := Binary64.finite negative exponent fraction
    have hjson : (Style.interchange.source (.double x)).json? = some (.double y) := by
      show (Style.interchange.layout.numeral negative _).json? = _
      rw [Numeral.json?_of_isInteger (Layout.isInteger_numeral rfl negative _), hy]
      rfl
    have hread : ofText? 0 (Style.interchange.compact (.double x)) = some (.double y) := by
      rw [ofText?, (isReadable_interchange.compact_spells _).ofText? (Nat.le_refl 0)]
      exact hjson
    rw [hjson, reread, hread]

/-! ## Integers -/

theorem Numeral.json?_ofInt (n : Int64) : (Numeral.ofInt n.toInt).json? = some (.int n.toInt) := by
  have hlow := n.le_toInt
  have hhigh := n.toInt_lt
  have hvalue : Text.ofDecimal (Text.decimal n.toInt.natAbs) = n.toInt.natAbs :=
    Text.ofDecimal_decimal _
  have hint : (Numeral.ofInt n.toInt).int? = some n.toInt := by
    unfold ofInt int?
    dsimp only
    rw [if_neg (by simp), hvalue]
    by_cases hnegative : n.toInt < 0
    · rw [if_pos (by simpa using hnegative), if_neg (by omega)]
      congr 1
      omega
    · rw [if_neg (by simpa using hnegative), if_pos (by rw [maxSignificand]; omega)]
      congr 1
      omega
  rw [json?, hint]

end EntityQuery.Json
