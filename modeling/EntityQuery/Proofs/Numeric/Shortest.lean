import EntityQuery.Proofs.Numeric.Magnitude
import Mathlib.Data.Nat.Find
import Mathlib.Data.Nat.Log

/-!
# The shortest decimal of a float

The digits of a float round to it, there are at most seventeen of them, and no decimal with fewer
digits rounds to the float. How ties go matters for one kind of float only: one that lies midway
between two decimals that both are shortest.
-/

namespace EntityQuery.Shortest

namespace Magnitude

/-- The magnitude of a float other than zero. -/
structure IsFloat (x : Magnitude) : Prop where
  pos : 0 < x.m
  lt : x.m < 2 ^ 53
  le_scale : -1074 ≤ x.q
  scale_le : x.q ≤ 971
  eq_of_narrow : x.narrow = true → x.m = 2 ^ 52

variable {x : Magnitude}

/-- The fields of a finite float give a magnitude, unless both are zero. -/
theorem isFloat_ofFields (exponent : Fin 2047) (fraction : Fin Binary64.hidden)
    (h : (ofFields exponent fraction).m ≠ 0) : (ofFields exponent fraction).IsFloat := by
  have hexponent := exponent.isLt
  have hfraction := fraction.isLt
  unfold ofFields Binary64.significand Binary64.scale Binary64.hidden at *
  dsimp only at h ⊢
  refine ⟨Nat.pos_of_ne_zero h, ?_, ?_, ?_, ?_⟩
  · dsimp only
    split <;> omega
  · dsimp only
    omega
  · dsimp only
    omega
  · intro hnarrow
    simp only [Bool.and_eq_true, beq_iff_eq, decide_eq_true_eq] at hnarrow
    dsimp only
    rw [if_neg (by omega), hnarrow.1]
    norm_num

/-- Powers of ten that are added up. -/
theorem ten_pow_mul {n : ℕ} {a b : ℤ} (h : n + a = b) : (10 : ℚ) ^ n * 10 ^ a = 10 ^ b := by
  rw [← zpow_natCast, ← zpow_add₀ (by norm_num), h]

/-! ## Places -/

/-- The place that is guessed from the bit length. -/
def guess (bits : ℤ) : ℤ :=
  bits * 1233 / 4096

/-- The logarithm of two is close to 1233/4096. -/
theorem two_pow_bounds {n : ℕ} (hn : n ≤ 1074) :
    (10 : ℚ) ^ (1233 * n) ≤ 2 ^ (4096 * n) ∧ (2 : ℚ) ^ (4096 * n) ≤ 10 ^ (1233 * n + 1074) := by
  have hlower : (10 : ℚ) ^ 1233 ≤ 2 ^ 4096 := by
    have hnat : 10 ^ 1233 ≤ 2 ^ 4096 := by decide +kernel
    exact_mod_cast hnat
  have hupper : (2 : ℚ) ^ 4096 ≤ 10 ^ 1234 := by
    have hnat : 2 ^ 4096 ≤ 10 ^ 1234 := by decide +kernel
    exact_mod_cast hnat
  rw [pow_mul, pow_mul]
  refine ⟨pow_le_pow_left₀ (by positivity) hlower n, ?_⟩
  refine (pow_le_pow_left₀ (by positivity) hupper n).trans ?_
  rw [← pow_mul]
  exact pow_le_pow_right₀ (by norm_num) (by omega)

theorem two_zpow_bounds {k : ℤ} (hlow : -1074 ≤ k) (hhigh : k ≤ 1074) :
    (10 : ℚ) ^ (1233 * k - 1074) ≤ 2 ^ (4096 * k) ∧
      (2 : ℚ) ^ (4096 * k) ≤ 10 ^ (1233 * k + 1074) := by
  have hten : (1 : ℚ) ≤ 10 := by norm_num
  obtain ⟨n, rfl | rfl⟩ := k.eq_nat_or_neg
  · obtain ⟨hlower, hupper⟩ := two_pow_bounds (n := n) (by omega)
    rw [← zpow_natCast, ← zpow_natCast] at hlower hupper
    push_cast at hlower hupper
    exact ⟨(zpow_le_zpow_right₀ hten (by omega)).trans hlower, hupper⟩
  · -- A negative power turns both bounds round.
    obtain ⟨hlower, hupper⟩ := two_pow_bounds (n := n) (by omega)
    have hlower := inv_anti₀ (by positivity) hlower
    have hupper := inv_anti₀ (by positivity) hupper
    rw [← zpow_natCast, ← zpow_natCast, ← zpow_neg, ← zpow_neg] at hlower hupper
    push_cast at hlower hupper
    rw [mul_neg, mul_neg]
    refine ⟨le_trans (zpow_le_zpow_right₀ hten ?_) hupper,
      hlower.trans (zpow_le_zpow_right₀ hten ?_)⟩
    · omega
    · omega

/-- The guess is off by one at most, for all bit lengths of floats. -/
theorem guess_bounds {bits : ℤ} (hlow : -1074 ≤ bits) (hhigh : bits ≤ 1023) :
    (10 : ℚ) ^ (guess bits - 1) ≤ 2 ^ bits ∧ (2 : ℚ) ^ (bits + 1) ≤ 10 ^ (guess bits + 2) := by
  have hten : (1 : ℚ) ≤ 10 := by norm_num
  have hdiv : 4096 * guess bits ≤ 1233 * bits ∧ 1233 * bits < 4096 * guess bits + 4096 := by
    unfold guess
    omega
  constructor
  · have hbits := (two_zpow_bounds hlow (by omega)).1
    refine le_of_pow_le_pow_left₀ (n := 4096) (by decide) (by positivity) ?_
    rw [← zpow_natCast, ← zpow_mul, ← zpow_natCast, ← zpow_mul, mul_comm bits]
    exact (zpow_le_zpow_right₀ hten (by push_cast; omega)).trans hbits
  · have hbits := (two_zpow_bounds (k := bits + 1) (by omega) (by omega)).2
    refine le_of_pow_le_pow_left₀ (n := 4096) (by decide) (by positivity) ?_
    rw [← zpow_natCast, ← zpow_mul, ← zpow_natCast, ← zpow_mul, mul_comm (bits + 1)]
    exact hbits.trans (zpow_le_zpow_right₀ hten (by push_cast; omega))

/-- The places of a magnitude are those before the point. -/
theorem IsFloat.places_bounds (hx : x.IsFloat) :
    (10 : ℚ) ^ (x.places - 1) ≤ x.value ∧ x.value < 10 ^ x.places := by
  have hm : x.m ≠ 0 := hx.pos.ne'
  have hlog : x.m.log2 < 53 := (Nat.log2_lt hm).mpr hx.lt
  have hbitsLow : -1074 ≤ (x.m.log2 : ℤ) + x.q := by
    have := hx.le_scale
    omega
  have hbitsHigh : (x.m.log2 : ℤ) + x.q ≤ 1023 := by
    have := hx.scale_le
    omega
  have hbits := guess_bounds hbitsLow hbitsHigh
  have hlow : (2 : ℚ) ^ ((x.m.log2 : ℤ) + x.q) ≤ x.value := by
    rw [zpow_add₀ (by norm_num), zpow_natCast, value]
    gcongr
    exact_mod_cast Nat.log2_self_le hm
  have hhigh : x.value < (2 : ℚ) ^ ((x.m.log2 : ℤ) + x.q + 1) := by
    rw [add_right_comm, zpow_add₀ (by norm_num), value]
    gcongr
    exact_mod_cast Nat.lt_log2_self
  have hfound (k : ℤ) : (compareScaled 1 k x.m x.q == .gt) = decide (x.value < 10 ^ k) := by
    rw [Bool.eq_iff_iff, beq_iff_eq, compareScaled_eq, compare_gt_iff_gt, Nat.cast_one, one_mul,
      decide_eq_true_eq]
    rfl
  -- The guess is the first of three candidates, and one of them is met.
  unfold places
  dsimp only
  rw [show ((x.m.log2 : ℤ) + x.q) * 1233 / 4096 = guess (x.m.log2 + x.q) from rfl]
  generalize guess (x.m.log2 + x.q) = k at hbits ⊢
  simp only [hfound, List.find?_cons, List.find?_nil]
  by_cases hk : x.value < 10 ^ k
  · simp only [hk, decide_true, Option.getD_some]
    exact ⟨hbits.1.trans hlow, trivial⟩
  · by_cases hk' : x.value < 10 ^ (k + 1)
    · simp only [hk, hk', decide_true, decide_false, Option.getD_some, add_sub_cancel_right]
      exact ⟨not_lt.mp hk, trivial⟩
    · simp only [hk, hk', decide_false, Option.getD_none]
      rw [show k + 2 - 1 = k + 1 by ring]
      exact ⟨not_lt.mp hk', hhigh.trans_le hbits.2⟩

/-! ## Neighbours on a grid -/

/-- How often the grid fits below the magnitude. -/
def floorOn (x : Magnitude) (grid : ℤ) : ℕ :=
  x.m * Nat.pow 2 x.q.toNat * Nat.pow 10 (-grid).toNat /
    (Nat.pow 2 (-x.q).toNat * Nat.pow 10 grid.toNat)

/-- The quotient that is rounded down. -/
theorem value_mul (x : Magnitude) (grid : ℤ) :
    x.value * ((Nat.pow 2 (-x.q).toNat * Nat.pow 10 grid.toNat : ℕ) : ℚ) =
      ((x.m * Nat.pow 2 x.q.toNat * Nat.pow 10 (-grid).toNat : ℕ) : ℚ) * 10 ^ grid := by
  have hq := zpow_mul_pow_toNat (b := 2) (by norm_num) x.q
  have hgrid := zpow_mul_pow_toNat (b := 10) (by norm_num) grid
  push_cast [Nat.pow_eq]
  rw [← hq, ← hgrid, value]
  ring

theorem den_pos (x : Magnitude) (grid : ℤ) :
    0 < Nat.pow 2 (-x.q).toNat * Nat.pow 10 grid.toNat :=
  Nat.mul_pos (Nat.pow_pos (by decide)) (Nat.pow_pos (by decide))

/-- The magnitude lies between its neighbours on the grid. -/
theorem floorOn_bounds (x : Magnitude) (grid : ℤ) :
    (x.floorOn grid : ℚ) * 10 ^ grid ≤ x.value ∧
      x.value < ((x.floorOn grid + 1 : ℕ) : ℚ) * 10 ^ grid := by
  have hquotient := x.value_mul grid
  have hpos := x.den_pos grid
  unfold floorOn
  generalize x.m * Nat.pow 2 x.q.toNat * Nat.pow 10 (-grid).toNat = num at hquotient ⊢
  generalize Nat.pow 2 (-x.q).toNat * Nat.pow 10 grid.toNat = den at hquotient hpos ⊢
  have hden : (0 : ℚ) < den := Nat.cast_pos.mpr hpos
  constructor
  · refine le_of_mul_le_mul_right ?_ hden
    rw [hquotient, mul_right_comm, ← Nat.cast_mul]
    gcongr
    exact Nat.div_mul_le_self ..
  · refine lt_of_mul_lt_mul_right ?_ hden.le
    rw [hquotient, mul_right_comm, ← Nat.cast_mul]
    gcongr
    exact (Nat.div_lt_iff_lt_mul hpos).mp (Nat.lt_succ_self _)

/-- If any multiple of the grid rounds to the magnitude, one of the two neighbours does. -/
theorem Rounds.neighbour {grid : ℤ} {d : ℕ} (h : x.Rounds (d * 10 ^ grid)) :
    x.Rounds (x.floorOn grid * 10 ^ grid) ∨
      x.Rounds (((x.floorOn grid + 1 : ℕ) : ℚ) * 10 ^ grid) := by
  obtain ⟨hlow, hhigh⟩ := x.floorOn_bounds grid
  rcases Nat.lt_or_ge (x.floorOn grid) d with hd | hd
  · right
    refine x.rounds_value.between h hhigh.le ?_
    gcongr
    exact hd
  · left
    refine h.between x.rounds_value ?_ hlow
    gcongr

/-- What is found on a grid is one of the neighbours, and rounds to the magnitude. -/
theorem onGrid_eq_some (hx : 0 < x.m) {tie : Tie} {grid : ℤ} {d : Digits}
    (h : x.onGrid tie grid = some d) :
    d.exponent = grid ∧ (d.digits = x.floorOn grid ∨ d.digits = x.floorOn grid + 1) ∧
      x.Rounds d.value := by
  unfold onGrid at h
  dsimp only at h
  split at h
  · cases h
  · rename_i hlower _
    cases h
    exact ⟨rfl, .inl rfl, (readsBack_iff hx).mp hlower⟩
  · rename_i hupper
    cases h
    exact ⟨rfl, .inr rfl, (readsBack_iff hx).mp hupper⟩
  · rename_i hlower hupper
    -- Where both neighbours read back, the one that is taken is one of them.
    have hboth (d : Digits) (hd : d = ⟨x.floorOn grid, grid⟩ ∨ d = ⟨x.floorOn grid + 1, grid⟩) :
        d.exponent = grid ∧ (d.digits = x.floorOn grid ∨ d.digits = x.floorOn grid + 1) ∧
          x.Rounds d.value := by
      rcases hd with rfl | rfl
      · exact ⟨rfl, .inl rfl, (readsBack_iff hx).mp hlower⟩
      · exact ⟨rfl, .inr rfl, (readsBack_iff hx).mp hupper⟩
    refine hboth d ?_
    split at h
    · exact .inl (Option.some.inj h).symm
    · exact .inr (Option.some.inj h).symm
    · exact .inr (Option.some.inj h).symm
    · split at h
      · exact .inl (Option.some.inj h).symm
      · exact .inr (Option.some.inj h).symm

/-- Something is found on a grid if any multiple of it rounds to the magnitude. -/
theorem isSome_onGrid_iff (hx : 0 < x.m) (tie : Tie) {grid : ℤ} :
    (x.onGrid tie grid).isSome = true ↔ ∃ d : ℕ, x.Rounds (d * 10 ^ grid) := by
  constructor
  · intro h
    obtain ⟨d, hd⟩ := Option.isSome_iff_exists.mp h
    obtain ⟨rfl, -, hrounds⟩ := onGrid_eq_some hx hd
    exact ⟨d.digits, hrounds⟩
  · rintro ⟨d, hd⟩
    have hneighbour : x.readsBack ⟨x.floorOn grid, grid⟩ = true ∨
        x.readsBack ⟨x.floorOn grid + 1, grid⟩ = true :=
      hd.neighbour.imp (readsBack_iff hx).mpr (readsBack_iff hx).mpr
    unfold onGrid
    dsimp only
    split
    · rename_i hlower hupper
      exact absurd hneighbour (by simpa [floorOn] using And.intro hlower hupper)
    · rfl
    · rfl
    · split <;> rfl

/-- Twice the quotient is compared with an odd number as the magnitude with a midpoint. -/
theorem compare_midpoint (x : Magnitude) (grid : ℤ) :
    compare (2 * (x.m * Nat.pow 2 x.q.toNat * Nat.pow 10 (-grid).toNat))
        ((2 * x.floorOn grid + 1) * (Nat.pow 2 (-x.q).toNat * Nat.pow 10 grid.toNat)) =
      compare x.value ((x.floorOn grid + 1 / 2) * 10 ^ grid) := by
  have hquotient := x.value_mul grid
  have hpos := x.den_pos grid
  generalize x.m * Nat.pow 2 x.q.toNat * Nat.pow 10 (-grid).toNat = num at hquotient ⊢
  generalize Nat.pow 2 (-x.q).toNat * Nat.pow 10 grid.toNat = den at hquotient hpos ⊢
  have hden : (0 : ℚ) < den := Nat.cast_pos.mpr hpos
  have hgrid : (0 : ℚ) < 10 ^ grid := by positivity
  -- Both sides are scaled by the same positive number, which clears the denominators.
  have hleft : ((2 * num : ℕ) : ℚ) = x.value * (2 * den / 10 ^ grid) := by
    push_cast
    rw [mul_div_assoc', mul_left_comm, hquotient]
    field_simp
  have hright : (((2 * x.floorOn grid + 1) * den : ℕ) : ℚ) =
      (x.floorOn grid + 1 / 2) * 10 ^ grid * (2 * den / 10 ^ grid) := by
    push_cast
    field_simp
  rw [← cmp_eq_compare, ← cmp_eq_compare, ← (Nat.strictMono_cast (α := ℚ)).cmp_map_eq, hleft,
    hright]
  exact (strictMono_mul_right_of_pos (by positivity)).cmp_map_eq _ _

/-- Of two neighbours that round to the magnitude the nearer one is found, and midway between them
it is the tie that decides. -/
theorem onGrid_of_rounds (hx : 0 < x.m) {grid : ℤ} (hlower : x.Rounds (x.floorOn grid * 10 ^ grid))
    (hupper : x.Rounds (((x.floorOn grid + 1 : ℕ) : ℚ) * 10 ^ grid)) (tie : Tie) :
    x.onGrid tie grid =
      match compare x.value ((x.floorOn grid + 1 / 2) * 10 ^ grid), tie with
      | .lt, _ => some ⟨x.floorOn grid, grid⟩
      | .gt, _ => some ⟨x.floorOn grid + 1, grid⟩
      | .eq, .away => some ⟨x.floorOn grid + 1, grid⟩
      | .eq, .toEven =>
        some (if x.floorOn grid % 2 = 0 then ⟨x.floorOn grid, grid⟩
          else ⟨x.floorOn grid + 1, grid⟩) := by
  have hread : x.readsBack ⟨x.floorOn grid, grid⟩ = true := (readsBack_iff hx).mpr hlower
  have hread' : x.readsBack ⟨x.floorOn grid + 1, grid⟩ = true := (readsBack_iff hx).mpr hupper
  rw [← compare_midpoint]
  rw [floorOn] at hread hread'
  unfold onGrid
  dsimp only
  rw [hread, hread']
  rfl

/-- How a tie goes matters only if the magnitude lies midway between its neighbours, both of them
round to it, and the lower one is even. -/
theorem onGrid_away_or (hx : 0 < x.m) (grid : ℤ) :
    x.onGrid .away grid = x.onGrid .toEven grid ∨
      Even (x.floorOn grid) ∧ x.value = (x.floorOn grid + 1 / 2) * 10 ^ grid ∧
        x.Rounds (x.floorOn grid * 10 ^ grid) ∧
        x.Rounds (((x.floorOn grid + 1 : ℕ) : ℚ) * 10 ^ grid) := by
  -- The ties are asked only where both neighbours read back and the value is midway.
  by_cases hboth : x.Rounds (x.floorOn grid * 10 ^ grid) ∧
      x.Rounds (((x.floorOn grid + 1 : ℕ) : ℚ) * 10 ^ grid)
  · obtain ⟨hlower, hupper⟩ := hboth
    rw [onGrid_of_rounds hx hlower hupper, onGrid_of_rounds hx hlower hupper]
    cases hcompare : compare x.value ((x.floorOn grid + 1 / 2) * 10 ^ grid) with
    | lt => exact .inl rfl
    | gt => exact .inl rfl
    | eq =>
      by_cases heven : x.floorOn grid % 2 = 0
      · exact .inr ⟨Nat.even_iff.mpr heven, compare_eq_iff_eq.mp hcompare, hlower, hupper⟩
      · exact .inl (congrArg some (if_neg heven).symm)
  · left
    have hread : ¬(x.readsBack ⟨x.floorOn grid, grid⟩ = true ∧
        x.readsBack ⟨x.floorOn grid + 1, grid⟩ = true) := fun h =>
      hboth ⟨(readsBack_iff hx).mp h.1, (readsBack_iff hx).mp h.2⟩
    unfold onGrid
    dsimp only
    split
    · rfl
    · rfl
    · rfl
    · exact absurd ⟨‹_›, ‹_›⟩ hread

/-- A magnitude midway between two multiples of the grid has these as its neighbours. -/
theorem floorOn_of_midway {grid : ℤ} {d : ℕ} (h : x.value = (d + 1 / 2) * 10 ^ grid) :
    x.floorOn grid = d := by
  obtain ⟨hlow, hhigh⟩ := x.floorOn_bounds grid
  have hgrid : (0 : ℚ) < 10 ^ grid := by positivity
  rw [h] at hlow hhigh
  have hlow' : (x.floorOn grid : ℚ) ≤ d + 1 / 2 := le_of_mul_le_mul_right hlow hgrid
  have hhigh' : (d : ℚ) + 1 / 2 < ((x.floorOn grid + 1 : ℕ) : ℚ) :=
    lt_of_mul_lt_mul_right hhigh hgrid.le
  have hle : (x.floorOn grid : ℚ) < ((d + 1 : ℕ) : ℚ) := by
    push_cast
    linarith
  have hlt : (d : ℚ) < ((x.floorOn grid + 1 : ℕ) : ℚ) := by linarith
  have hle := Nat.cast_lt.mp hle
  have hlt := Nat.cast_lt.mp hlt
  omega

theorem onGrid_of_midway (hx : 0 < x.m) {grid : ℤ} {d : ℕ} (heven : Even d)
    (hvalue : x.value = (d + 1 / 2) * 10 ^ grid) (hlower : x.Rounds (d * 10 ^ grid))
    (hupper : x.Rounds (((d + 1 : ℕ) : ℚ) * 10 ^ grid)) :
    x.onGrid .away grid = some ⟨d + 1, grid⟩ ∧ x.onGrid .toEven grid = some ⟨d, grid⟩ := by
  have hfloor : x.floorOn grid = d := floorOn_of_midway hvalue
  rw [← hfloor] at hlower hupper hvalue heven ⊢
  rw [onGrid_of_rounds hx hlower hupper, onGrid_of_rounds hx hlower hupper,
    compare_eq_iff_eq.mpr hvalue]
  exact ⟨rfl, congrArg some (if_pos (Nat.even_iff.mp heven))⟩

/-! ## Seventeen digits -/

theorem IsFloat.not_rounds_zero (hx : x.IsFloat) : ¬x.Rounds 0 := by
  have hlow : 0 < x.low := by
    have hm := hx.pos
    have hfactor : 0 < if x.narrow then 4 * x.m - 1 else 4 * x.m - 2 := by split <;> omega
    rw [low_eq hm]
    exact mul_pos (Nat.cast_pos.mpr hfactor) (by positivity)
  intro h
  rcases h.1 with h | ⟨-, h⟩
  · exact lt_asymm h hlow
  · exact hlow.ne' h

/-- Seventeen digits are as fine as half the gap to either neighbour. -/
theorem IsFloat.exists_rounds (hx : x.IsFloat) : ∃ d : ℕ, x.Rounds (d * 10 ^ (x.places - 17)) := by
  obtain ⟨hlower, hupper⟩ := x.floorOn_bounds (x.places - 17)
  have hgap : (0 : ℚ) < 2 ^ (x.q - 2) := by positivity
  have hvalue : x.value = 4 * x.m * 2 ^ (x.q - 2) := by
    rw [value, quarter]
    ring
  have hgrid : 10 ^ 16 * (10 : ℚ) ^ (x.places - 17) ≤ x.value := by
    rw [ten_pow_mul (b := x.places - 1) (by push_cast; ring)]
    exact hx.places_bounds.1
  have hupperEq : ((x.floorOn (x.places - 17) + 1 : ℕ) : ℚ) * 10 ^ (x.places - 17) =
      x.floorOn (x.places - 17) * 10 ^ (x.places - 17) + 10 ^ (x.places - 17) := by
    push_cast
    ring
  rw [hupperEq] at hupper
  by_cases hclose : x.low < x.floorOn (x.places - 17) * 10 ^ (x.places - 17)
  · -- The lower neighbour is no larger than the magnitude, so being near is enough.
    refine ⟨x.floorOn (x.places - 17), .inl hclose, .inl (hlower.trans_lt ?_)⟩
    rw [high]
    linarith
  · refine ⟨x.floorOn (x.places - 17) + 1, .inl ?_, .inl ?_⟩
    · rw [hupperEq]
      refine lt_trans ?_ hupper
      rw [low]
      split <;> linarith
    · -- The lower neighbour is too far off, so the upper one is near.
      rw [hupperEq, high]
      rw [not_lt, low] at hclose
      have hm : (x.m : ℚ) < 2 ^ 53 := by exact_mod_cast hx.lt
      rw [hvalue] at hgrid
      split at hclose
      · rename_i hnarrow
        have hm : (x.m : ℚ) = 2 ^ 52 := by exact_mod_cast hx.eq_of_narrow hnarrow
        rw [hm] at hgrid
        linarith
      · have hbound : 4 * (x.m : ℚ) * 2 ^ (x.q - 2) < 4 * 2 ^ 53 * 2 ^ (x.q - 2) := by gcongr
        linarith

/-! ## The first grid -/

theorem findSome?_range {α : Type} {f : ℕ → Option α} {n m : ℕ} {a : α} (hn : n < m)
    (hbefore : ∀ k < n, f k = none) (ha : f n = some a) : (List.range m).findSome? f = some a := by
  induction m with
  | zero => cases hn
  | succ m ih =>
    rw [List.range_succ, List.findSome?_append, List.findSome?_singleton]
    rcases Nat.lt_succ_iff_lt_or_eq.mp hn with hn | rfl
    · rw [ih hn, Option.some_or]
    · have hnone : (List.range n).findSome? f = none :=
        List.findSome?_eq_none_iff.mpr fun k hk => hbefore k (List.mem_range.mp hk)
      rw [hnone, Option.none_or, ha]

/-- There is a coarsest grid with multiples that round to the magnitude, whichever way ties go. -/
theorem IsFloat.exists_firstGrid (hx : x.IsFloat) :
    ∃ n : ℕ, n < 17 ∧ (∀ k < n, ∀ d : ℕ, ¬x.Rounds (d * 10 ^ (x.places - k - 1))) ∧
      ∀ tie, ∃ d, x.onGrid tie (x.places - n - 1) = some d ∧
        x.shortest tie = stripZeros 18 d := by
  have hseventeen : ∃ d : ℕ, x.Rounds (d * 10 ^ (x.places - (16 : ℕ) - 1)) := by
    obtain ⟨d, hd⟩ := hx.exists_rounds
    refine ⟨d, ?_⟩
    rwa [show x.places - (16 : ℕ) - 1 = x.places - 17 by push_cast; ring]
  have hfound : ∃ n : ℕ, ∃ d : ℕ, x.Rounds (d * 10 ^ (x.places - n - 1)) := ⟨16, hseventeen⟩
  classical
  obtain ⟨n, hn, hfirst, hbefore⟩ : ∃ n : ℕ, n < 17 ∧
      (∃ d : ℕ, x.Rounds (d * 10 ^ (x.places - n - 1))) ∧
      ∀ k < n, ∀ d : ℕ, ¬x.Rounds (d * 10 ^ (x.places - k - 1)) :=
    ⟨Nat.find hfound, Nat.lt_succ_of_le (Nat.find_min' hfound hseventeen), Nat.find_spec hfound,
      fun k hk d hd => Nat.find_min hfound hk ⟨d, hd⟩⟩
  -- Which grid is the first does not depend on how ties go, only what is found on it.
  refine ⟨n, hn, hbefore, fun tie => ?_⟩
  obtain ⟨d, hd⟩ := Option.isSome_iff_exists.mp ((isSome_onGrid_iff hx.pos tie).mpr hfirst)
  have hnone (k : ℕ) (hk : k < n) : x.onGrid tie (x.places - k - 1) = none := by
    rw [← Option.not_isSome_iff_eq_none, isSome_onGrid_iff hx.pos tie, not_exists]
    exact hbefore k hk
  refine ⟨d, hd, ?_⟩
  unfold shortest
  dsimp only
  rw [findSome?_range hn hnone hd]

end Magnitude

/-! ## Trailing zeros -/

theorem value_stripZeros (fuel : ℕ) (d : Digits) : (stripZeros fuel d).value = d.value := by
  induction fuel generalizing d with
  | zero => rfl
  | succ fuel ih =>
    rw [stripZeros]
    split
    · rename_i h
      have hdigits : d.digits = d.digits / 10 * 10 := by omega
      rw [ih, Digits.value, Digits.value]
      dsimp only
      conv_rhs => rw [hdigits]
      rw [zpow_add_one₀ (by norm_num)]
      push_cast
      ring
    · rfl

theorem digits_stripZeros_le (fuel : ℕ) (d : Digits) : (stripZeros fuel d).digits ≤ d.digits := by
  induction fuel generalizing d with
  | zero => exact le_rfl
  | succ fuel ih =>
    rw [stripZeros]
    split
    · exact (ih _).trans (Nat.div_le_self ..)
    · exact le_rfl

namespace Magnitude

variable {x : Magnitude}

theorem IsFloat.shortest_rounds (hx : x.IsFloat) (tie : Tie) :
    x.Rounds (x.shortest tie).value := by
  obtain ⟨n, -, -, hfirst⟩ := hx.exists_firstGrid
  obtain ⟨d, hd, hshortest⟩ := hfirst tie
  rw [hshortest, value_stripZeros]
  exact (onGrid_eq_some hx.pos hd).2.2

theorem IsFloat.digits_shortest_pos (hx : x.IsFloat) (tie : Tie) : 0 < (x.shortest tie).digits := by
  refine Nat.pos_of_ne_zero fun h => hx.not_rounds_zero ?_
  have hrounds := hx.shortest_rounds tie
  rwa [Digits.value, h, Nat.cast_zero, zero_mul] at hrounds

/-- The digits on the grid of `n + 1` places. -/
theorem IsFloat.floorOn_lt (hx : x.IsFloat) (n : ℕ) :
    x.floorOn (x.places - n - 1) < 10 ^ (n + 1) := by
  have hgrid : (0 : ℚ) < 10 ^ (x.places - n - 1) := by positivity
  have hpower : (10 : ℚ) ^ x.places = 10 ^ (n + 1) * 10 ^ (x.places - n - 1) :=
    (ten_pow_mul (by push_cast; ring)).symm
  have hlower := (x.floorOn_bounds (x.places - n - 1)).1
  have hlt := (hlower.trans_lt hx.places_bounds.2).trans_eq hpower
  exact_mod_cast lt_of_mul_lt_mul_right hlt hgrid.le

theorem IsFloat.digits_shortest_le (hx : x.IsFloat) (tie : Tie) :
    (x.shortest tie).digits ≤ 10 ^ 17 := by
  obtain ⟨n, hn, -, hfirst⟩ := hx.exists_firstGrid
  obtain ⟨d, hd, hshortest⟩ := hfirst tie
  have hfloor := hx.floorOn_lt n
  have hdigits : d.digits ≤ x.floorOn (x.places - n - 1) + 1 := by
    rcases (onGrid_eq_some hx.pos hd).2.1 with h | h <;> omega
  calc (x.shortest tie).digits ≤ d.digits := hshortest ▸ digits_stripZeros_le 18 d
    _ ≤ 10 ^ (n + 1) := by omega
    _ ≤ 10 ^ 17 := Nat.pow_le_pow_right (by decide) hn

/-! ## Ties -/

/-- The magnitude lies midway between two decimals of the same digits but for the last, which is
even in the lower one. Both decimals round to the magnitude, and none with fewer digits does. -/
structure IsMidway (x : Magnitude) (d : ℕ) (e : ℤ) : Prop where
  even : Even d
  value_eq : x.value = (d + 1 / 2) * 10 ^ e
  rounds_lower : x.Rounds (d * 10 ^ e)
  rounds_upper : x.Rounds (((d + 1 : ℕ) : ℚ) * 10 ^ e)
  shortest : ∀ (d' : ℕ) (e' : ℤ), Nat.log 10 d' < Nat.log 10 d → ¬x.Rounds (d' * 10 ^ e')

theorem IsMidway.significand_pos {d : ℕ} {e : ℤ} (h : x.IsMidway d e) : 0 < x.m := by
  have hvalue : 0 < x.value := by
    rw [h.value_eq]
    positivity
  by_contra hm
  rw [value, Nat.eq_zero_of_not_pos hm, Nat.cast_zero, zero_mul] at hvalue
  exact lt_irrefl _ hvalue

theorem IsMidway.pos (hx : x.IsFloat) {d : ℕ} {e : ℤ} (h : x.IsMidway d e) : d ≠ 0 := by
  rintro rfl
  have hrounds := h.rounds_lower
  rw [Nat.cast_zero, zero_mul] at hrounds
  exact hx.not_rounds_zero hrounds

/-- The number of digits tells the grid. -/
theorem IsMidway.exponent_eq (hx : x.IsFloat) {d : ℕ} {e : ℤ} (h : x.IsMidway d e) :
    e = x.places - Nat.log 10 d - 1 := by
  obtain ⟨hlow, hhigh⟩ := hx.places_bounds
  have hgrid : (0 : ℚ) < 10 ^ e := by positivity
  have hfew : ((10 ^ Nat.log 10 d : ℕ) : ℚ) ≤ d :=
    Nat.cast_le.mpr (Nat.pow_log_le_self 10 (h.pos hx))
  have hmany : ((d + 1 : ℕ) : ℚ) ≤ ((10 ^ (Nat.log 10 d + 1) : ℕ) : ℚ) :=
    Nat.cast_le.mpr (Nat.lt_pow_succ_log_self (by decide) d)
  push_cast at hfew hmany
  -- The value lies between two powers of ten that are next to each other.
  have hlower : (10 : ℚ) ^ ((Nat.log 10 d : ℤ) + e) ≤ x.value := by
    rw [zpow_add₀ (by norm_num), zpow_natCast, h.value_eq]
    gcongr
    linarith
  have hupper : x.value < (10 : ℚ) ^ ((Nat.log 10 d : ℤ) + 1 + e) := by
    rw [zpow_add₀ (by norm_num), zpow_add₀ (by norm_num), zpow_natCast, zpow_one, h.value_eq]
    rw [pow_succ] at hmany
    gcongr
    linarith
  have hle := (zpow_lt_zpow_iff_right₀ (by norm_num : (1 : ℚ) < 10)).mp (hlower.trans_lt hhigh)
  have hge := (zpow_lt_zpow_iff_right₀ (by norm_num : (1 : ℚ) < 10)).mp (hlow.trans_lt hupper)
  omega

/-- A multiple of a coarser grid is a multiple of the finer one. -/
theorem exists_multiple (d : ℕ) {e e' : ℤ} (h : e ≤ e') :
    ∃ k : ℕ, (d : ℚ) * 10 ^ e' = k * 10 ^ e := by
  refine ⟨d * 10 ^ (e' - e).toNat, ?_⟩
  rw [Nat.cast_mul, Nat.cast_pow, Nat.cast_ofNat, mul_assoc, ten_pow_mul]
  omega

/-- The two ways of a tie give the same digits, unless the magnitude lies midway. -/
theorem IsFloat.shortest_eq_or (hx : x.IsFloat) :
    x.shortest .away = x.shortest .toEven ∨ ∃ d e, x.IsMidway d e := by
  obtain ⟨n, -, hbefore, hfirst⟩ := hx.exists_firstGrid
  rcases onGrid_away_or hx.pos (x.places - n - 1) with heq | ⟨heven, hvalue, hlower, hupper⟩
  · left
    obtain ⟨d, hd, hshortest⟩ := hfirst .away
    obtain ⟨d', hd', hshortest'⟩ := hfirst .toEven
    rw [heq, hd'] at hd
    rw [hshortest, hshortest', Option.some.inj hd]
  · right
    refine ⟨x.floorOn (x.places - n - 1), x.places - n - 1, heven, hvalue, hlower, hupper, ?_⟩
    intro d e hd hrounds
    have hlog : Nat.log 10 d < n := hd.trans_le (Nat.lt_succ_iff.mp
      (Nat.log_lt_of_lt_pow' (Nat.succ_ne_zero n) (hx.floorOn_lt n)))
    obtain ⟨m, rfl⟩ : ∃ m, n = m + 1 := Nat.exists_eq_add_one_of_ne_zero (Nat.ne_zero_of_lt hlog)
    -- A decimal with fewer digits is a multiple of the grid before, or lies below one.
    rcases le_or_gt (x.places - m - 1) e with he | he
    · obtain ⟨k, hk⟩ := exists_multiple d he
      rw [hk] at hrounds
      exact hbefore m (Nat.lt_succ_self m) k hrounds
    · obtain ⟨k, hk⟩ := exists_multiple 1 (show x.places - m - 1 ≤ x.places - 1 by omega)
      refine hbefore m (Nat.lt_succ_self m) k (hk ▸ hrounds.between x.rounds_value ?_ ?_)
      · have hdigits : (d : ℚ) ≤ ((10 ^ (m + 1) : ℕ) : ℚ) := Nat.cast_le.mpr
          ((Nat.lt_pow_succ_log_self (by decide) d).le.trans
            (Nat.pow_le_pow_right (by decide) hlog))
        calc (d : ℚ) * 10 ^ e ≤ ((10 ^ (m + 1) : ℕ) : ℚ) * 10 ^ (x.places - m - 1 - 1) := by
              gcongr
              · norm_num
              · omega
          _ = ((1 : ℕ) : ℚ) * 10 ^ (x.places - 1) := by
              rw [Nat.cast_one, one_mul, Nat.cast_pow, Nat.cast_ofNat]
              exact ten_pow_mul (by push_cast; ring)
      · rw [Nat.cast_one, one_mul]
        exact hx.places_bounds.1

/-- Midway between two decimals the tie decides which of the two is taken. -/
theorem IsMidway.shortest_value (hx : x.IsFloat) {d : ℕ} {e : ℤ} (h : x.IsMidway d e) :
    (x.shortest .away).value = ((d + 1 : ℕ) : ℚ) * 10 ^ e ∧
      (x.shortest .toEven).value = d * 10 ^ e := by
  have hexponent := h.exponent_eq hx
  obtain ⟨n, -, hbefore, hfirst⟩ := hx.exists_firstGrid
  have hn : n = Nat.log 10 d := by
    rcases Nat.lt_trichotomy n (Nat.log 10 d) with hlt | heq | hgt
    · -- The decimal of the first grid would have fewer digits.
      exfalso
      obtain ⟨d', hd', -⟩ := hfirst .away
      obtain ⟨he, hdigits, hrounds⟩ := onGrid_eq_some hx.pos hd'
      rw [Digits.value, he] at hrounds
      have hfloor := hx.floorOn_lt n
      rcases Nat.lt_or_ge d'.digits (10 ^ (n + 1)) with hfew | hmany
      · refine h.shortest d'.digits _ (lt_of_le_of_lt ?_ hlt) hrounds
        exact Nat.lt_succ_iff.mp (Nat.log_lt_of_lt_pow' (Nat.succ_ne_zero n) hfew)
      · have hdigits : d'.digits = 10 ^ (n + 1) := by omega
        refine h.shortest 1 x.places (by rw [Nat.log_one_right]; omega) ?_
        rw [hdigits, Nat.cast_pow, Nat.cast_ofNat,
          ten_pow_mul (b := x.places) (by push_cast; ring)] at hrounds
        rwa [Nat.cast_one, one_mul]
    · exact heq
    · exact absurd (hexponent ▸ h.rounds_lower) (hbefore _ hgt d)
  subst hn
  rw [← hexponent] at hfirst
  obtain ⟨haway, heven⟩ := onGrid_of_midway hx.pos h.even h.value_eq h.rounds_lower h.rounds_upper
  obtain ⟨d₁, hd₁, hshortest₁⟩ := hfirst .away
  obtain ⟨d₂, hd₂, hshortest₂⟩ := hfirst .toEven
  rw [haway] at hd₁
  rw [heven] at hd₂
  rw [hshortest₁, hshortest₂, value_stripZeros, value_stripZeros, ← Option.some.inj hd₁,
    ← Option.some.inj hd₂]
  exact ⟨rfl, rfl⟩

end Magnitude

end EntityQuery.Shortest
