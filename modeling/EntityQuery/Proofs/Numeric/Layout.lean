import EntityQuery.Json.Writer
import EntityQuery.Proofs.Json.Grammar
import EntityQuery.Proofs.Numeric.Shortest

/-!
# What the text of a float spells

However a float is laid out, its text spells a number that has the value of its digits. A layout with
a point behind whole numbers never spells an integer.
-/

namespace EntityQuery

namespace Json

open Text

/-! ## The value of a number -/

namespace Numeral

/-- All digits of a number, without the point. -/
def digits (n : Numeral) : ℕ :=
  ofDecimal (n.whole ++ n.fraction)

/-- The power of ten that the last digit stands for. -/
def place (n : Numeral) : ℤ :=
  n.exponent?.getD 0 - n.fraction.length

/-- The rational number that a number denotes. -/
def value (n : Numeral) : ℚ :=
  (if n.negative then -1 else 1) * (n.digits * 10 ^ n.place)

/-- A number with neither a point nor an exponent. -/
def isInteger (n : Numeral) : Bool :=
  n.fraction.isEmpty && n.exponent?.isNone

end Numeral

/-- A minus sign before a negative number. -/
def signed (negative : Bool) (cs : List Char) : List Char :=
  if negative then '-' :: cs else cs

theorem Numeral.spells_signed (negative : Bool) {whole fraction fs es : List Char}
    {exponent? : Option Int} (hwhole : IsWhole whole) (hfraction : FractionSpells fraction fs)
    (hexponent : ExponentSpells exponent? es) :
    Numeral.Spells ⟨negative, whole, fraction, exponent?⟩
      (signed negative (whole ++ (fs ++ es))) := by
  cases negative with
  | false => exact .unsigned hwhole hfraction hexponent
  | true => exact .negative hwhole hfraction hexponent

end Json

/-! ## Layouts -/

namespace Layout

open Json Text

/-- What digits in positional notation spell. -/
def positionalNumeral (l : Layout) (negative : Bool) (ds : List Char) (whole : ℤ) : Numeral :=
  if whole ≤ 0 then ⟨negative, ['0'], List.replicate (-whole).toNat '0' ++ ds, none⟩
  else if (ds.length : ℤ) ≤ whole then
    ⟨negative, ds ++ List.replicate (whole.toNat - ds.length) '0',
      if l.pointZero then ['0'] else [], none⟩
  else ⟨negative, ds.take whole.toNat, ds.drop whole.toNat, none⟩

/-- What digits with an exponent spell. -/
def scientificNumeral (negative : Bool) (ds : List Char) (exponent : ℤ) : Numeral :=
  ⟨negative, ds.take 1, ds.drop 1, some exponent⟩

def unsignedNumeral (l : Layout) (negative : Bool) (d : Digits) : Numeral :=
  let ds := decimal d.digits
  let whole := d.exponent + ds.length
  if l.plainFrom < whole ∧ whole ≤ l.plainBelow then l.positionalNumeral negative ds whole
  else scientificNumeral negative ds (whole - 1)

/-- What the text of a finite float spells. -/
def numeral (l : Layout) (negative : Bool) (x : Shortest.Magnitude) : Numeral :=
  if x.m = 0 then l.positionalNumeral negative ['0'] 1
  else l.unsignedNumeral negative (x.shortest l.tie)

/-- Digits without a leading zero, or a zero as the only digit before the point. -/
def IsLeading (ds : List Char) (whole : ℤ) : Prop :=
  IsDigits ds ∧ (ds.head? = some '0' → ds = ['0'] ∧ whole = 1)

variable {l : Layout} {ds : List Char} {whole : ℤ} {negative : Bool}

theorem positional_spells (h : IsLeading ds whole) :
    (l.positionalNumeral negative ds whole).Spells (signed negative (l.positional ds whole)) := by
  obtain ⟨⟨hne, hdigits⟩, hzero⟩ := h
  have hreplicate (n : ℕ) : ∀ c ∈ List.replicate n '0', c.isDigit = true := by
    intro c hc
    rw [List.eq_of_mem_replicate hc]
    decide
  unfold positionalNumeral positional
  split
  · have hfraction : IsDigits (List.replicate (-whole).toNat '0' ++ ds) :=
      ⟨by simp [hne], by
        intro c hc
        exact (List.mem_append.mp hc).elim (hreplicate _ c) (hdigits c)⟩
    have hzeroWhole : IsWhole ['0'] := ⟨isDigits_zero, fun _ => rfl⟩
    have hspells := Numeral.spells_signed negative hzeroWhole (.some hfraction) .none
    simpa using hspells
  · split
    · have hwhole : IsWhole (ds ++ List.replicate (whole.toNat - ds.length) '0') := by
        refine ⟨⟨by simp [hne], fun c hc =>
          (List.mem_append.mp hc).elim (hdigits c) (hreplicate _ c)⟩, fun hhead => ?_⟩
        rw [List.head?_append_of_ne_nil _ hne] at hhead
        obtain ⟨rfl, rfl⟩ := hzero hhead
        rfl
      cases hpoint : l.pointZero with
      | true =>
        have hspells := Numeral.spells_signed negative hwhole (.some isDigits_zero) .none
        simpa using hspells
      | false =>
        have hspells := Numeral.spells_signed negative hwhole .none .none
        simpa using hspells
    · -- The point stands among the digits, so there are some on both sides of it.
      rename_i hpositive hshort
      have htake : ds.take whole.toNat ≠ [] := by
        rw [ne_eq, List.take_eq_nil_iff]
        exact fun h => h.elim (by omega) hne
      have hdrop : ds.drop whole.toNat ≠ [] := by
        rw [ne_eq, List.drop_eq_nil_iff]
        omega
      have hwhole : IsWhole (ds.take whole.toNat) := by
        refine ⟨⟨htake, fun c hc => hdigits c (List.mem_of_mem_take hc)⟩, fun hhead => ?_⟩
        rw [List.head?_take, if_neg (by omega)] at hhead
        obtain ⟨rfl, rfl⟩ := hzero hhead
        rfl
      have hspells := Numeral.spells_signed negative hwhole
        (.some ⟨hdrop, fun c hc => hdigits c (List.mem_of_mem_drop hc)⟩) .none
      simpa using hspells

theorem exponent_spells (l : Layout) (exponent : ℤ) :
    ExponentSpells (some exponent)
      ('e' :: ((if exponent < 0 then ['-'] else if l.plusSign then ['+'] else []) ++
        decimal exponent.natAbs)) := by
  have hdigits := isDigits_decimal exponent.natAbs
  have hvalue : ofDecimal (decimal exponent.natAbs) = exponent.natAbs := ofDecimal_decimal _
  have hmark : 'e' = 'e' ∨ 'e' = 'E' := .inl rfl
  split
  · have hspells := ExponentSpells.minus hmark hdigits
    rwa [hvalue, show -(exponent.natAbs : ℤ) = exponent by omega] at hspells
  · have hnonneg : (exponent.natAbs : ℤ) = exponent := by omega
    split
    · have hspells := ExponentSpells.plus hmark hdigits
      rwa [hvalue, hnonneg] at hspells
    · have hspells := ExponentSpells.unsigned hmark hdigits
      rwa [hvalue, hnonneg] at hspells

theorem scientific_spells (h : IsDigits ds) (exponent : ℤ) :
    (scientificNumeral negative ds exponent).Spells
      (signed negative (l.scientific ds exponent)) := by
  obtain ⟨d, ds, rfl⟩ := List.exists_cons_of_ne_nil h.1
  have hwhole : IsWhole [d] := by
    refine ⟨⟨by simp, fun c hc => h.2 c ?_⟩, fun hhead => ?_⟩
    · rw [List.mem_singleton.mp hc]
      exact List.mem_cons_self
    · rw [Option.some.inj hhead]
  have hexponent := exponent_spells l exponent
  cases ds with
  | nil => exact Numeral.spells_signed negative hwhole .none hexponent
  | cons e ds =>
    have hfraction : IsDigits (e :: ds) :=
      ⟨by simp, fun c hc => h.2 c (List.mem_cons_of_mem _ hc)⟩
    exact Numeral.spells_signed negative hwhole (.some hfraction) hexponent

theorem unsigned_spells {d : Digits} (h : 0 < d.digits) :
    (l.unsignedNumeral negative d).Spells (signed negative (l.unsigned d)) := by
  unfold unsignedNumeral unsigned
  dsimp only
  split
  · refine positional_spells ⟨isDigits_decimal _, fun hhead => ?_⟩
    exact absurd (head?_decimal _ hhead) h.ne'
  · exact scientific_spells (isDigits_decimal _) _

/-! ## Values -/

/-- The digits and the place of digits in positional notation. Zeros that fill up to the point
belong to the digits. -/
theorem digits_positionalNumeral (l : Layout) (negative : Bool) (ds : List Char) (whole : ℤ) :
    ∃ zeros : ℕ, (l.positionalNumeral negative ds whole).digits = ofDecimal ds * 10 ^ zeros ∧
      (l.positionalNumeral negative ds whole).place = whole - ds.length - zeros ∧
      (zeros ≠ 0 → (ds.length : ℤ) + zeros ≤ whole + 1) := by
  unfold positionalNumeral Numeral.digits Numeral.place
  split
  · -- Zeros in front of the digits do not count.
    refine ⟨0, ?_, ?_, fun h => absurd rfl h⟩
    · rw [show ['0'] ++ (List.replicate (-whole).toNat '0' ++ ds) =
          List.replicate ((-whole).toNat + 1) '0' ++ ds from rfl, ofDecimal_zeros_append, pow_zero,
        Nat.mul_one]
    · simp only [Option.getD_none, List.length_append, List.length_replicate]
      omega
  · split
    · -- Zeros behind the digits do, and so does one behind the point.
      cases l.pointZero with
      | true =>
        refine ⟨whole.toNat - ds.length + 1, ?_, ?_, fun _ => ?_⟩
        · rw [if_pos rfl, List.append_assoc, ← List.replicate_succ', ofDecimal_append_zeros]
        · simp only [if_true, Option.getD_none, List.length_singleton]
          omega
        · omega
      | false =>
        refine ⟨whole.toNat - ds.length, ?_, ?_, fun _ => ?_⟩
        · rw [if_neg (by decide), List.append_nil, ofDecimal_append_zeros]
        · simp only [Bool.false_eq_true, if_false, Option.getD_none, List.length_nil]
          omega
        · omega
    · -- The point stands among the digits, and nothing is added.
      refine ⟨0, ?_, ?_, fun h => absurd rfl h⟩
      · rw [List.take_append_drop, pow_zero, Nat.mul_one]
      · simp only [Option.getD_none, List.length_drop]
        omega

theorem digits_scientificNumeral (negative : Bool) (h : ds ≠ []) (exponent : ℤ) :
    (scientificNumeral negative ds exponent).digits = ofDecimal ds ∧
      (scientificNumeral negative ds exponent).place = exponent - (ds.length - 1) := by
  obtain ⟨d, ds, rfl⟩ := List.exists_cons_of_ne_nil h
  refine ⟨congrArg ofDecimal (List.take_append_drop 1 _), ?_⟩
  unfold scientificNumeral Numeral.place
  simp only [Option.getD_some, List.length_drop, List.length_cons]
  omega

/-- The digits of a numeral are those of the decimal, up to zeros that fill up to the point. -/
theorem digits_unsignedNumeral (l : Layout) (negative : Bool) (d : Digits) :
    ∃ zeros : ℕ, (l.unsignedNumeral negative d).digits = d.digits * 10 ^ zeros ∧
      (l.unsignedNumeral negative d).place = d.exponent - zeros ∧
      (zeros ≠ 0 → ((decimal d.digits).length : ℤ) + zeros ≤ l.plainBelow + 1) := by
  have hvalue : ofDecimal (decimal d.digits) = d.digits := ofDecimal_decimal _
  unfold unsignedNumeral
  dsimp only
  split
  · rename_i hplain
    obtain ⟨zeros, hdigits, hplace, hzeros⟩ := digits_positionalNumeral l negative
      (decimal d.digits) (d.exponent + (decimal d.digits).length)
    refine ⟨zeros, by rw [hdigits, hvalue], by omega, fun h => ?_⟩
    have := hzeros h
    omega
  · obtain ⟨hdigits, hplace⟩ := digits_scientificNumeral negative
      (isDigits_decimal d.digits).1 (d.exponent + (decimal d.digits).length - 1)
    refine ⟨0, by rw [hdigits, hvalue, pow_zero, Nat.mul_one], ?_, fun h => absurd rfl h⟩
    rw [hplace]
    push_cast
    ring

theorem value_unsignedNumeral (l : Layout) (negative : Bool) (d : Digits) :
    (l.unsignedNumeral negative d).value = (if negative then -1 else 1) * d.value := by
  obtain ⟨zeros, hdigits, hplace, -⟩ := digits_unsignedNumeral l negative d
  have hsign : (l.unsignedNumeral negative d).negative = negative := by
    unfold unsignedNumeral positionalNumeral scientificNumeral
    dsimp only
    split_ifs <;> rfl
  rw [Numeral.value, hsign, hdigits, hplace, Digits.value, Nat.cast_mul, Nat.cast_pow,
    Nat.cast_ofNat, mul_assoc (d.digits : ℚ), Shortest.Magnitude.ten_pow_mul (b := d.exponent)]
  ring

/-! ## Floats -/

variable {x : Shortest.Magnitude}

/-- The text of a finite float spells its numeral. -/
theorem text?_spells (l : Layout) (negative : Bool) (exponent : Fin 2047)
    (fraction : Fin Binary64.hidden) :
    ∃ text, l.text? (.finite negative exponent fraction) = some text ∧
      (l.numeral negative (.ofFields exponent fraction)).Spells text.toList := by
  refine ⟨_, rfl, ?_⟩
  rw [String.toList_ofList]
  unfold numeral
  split
  · exact positional_spells ⟨isDigits_zero, fun _ => ⟨rfl, rfl⟩⟩
  · rename_i hm
    exact unsigned_spells ((Shortest.Magnitude.isFloat_ofFields _ _ hm).digits_shortest_pos l.tie)

theorem value_numeral (l : Layout) (negative : Bool) (x : Shortest.Magnitude) :
    (l.numeral negative x).value =
      (if negative then -1 else 1) * (if x.m = 0 then 0 else (x.shortest l.tie).value) := by
  unfold numeral
  split
  · obtain ⟨zeros, hdigits, -⟩ := digits_positionalNumeral l negative ['0'] 1
    have hzero : ofDecimal ['0'] = 0 := rfl
    rw [Numeral.value, hdigits, hzero, Nat.zero_mul, Nat.cast_zero, zero_mul, mul_zero, mul_zero]
  · exact value_unsignedNumeral l negative _

/-- With a point behind whole numbers no float is written like an integer. -/
theorem isInteger_numeral (h : l.pointZero = true) (negative : Bool) (x : Shortest.Magnitude) :
    (l.numeral negative x).isInteger = false := by
  -- A fraction is left behind the point in every case, if only a zero.
  have hpositional {ds : List Char} (hne : ds ≠ []) (whole : ℤ) :
      (l.positionalNumeral negative ds whole).isInteger = false := by
    unfold positionalNumeral Numeral.isInteger
    split
    · simp [hne]
    · split
      · simp
      · rename_i hlong
        have hdrop : ds.drop whole.toNat ≠ [] := by
          rw [ne_eq, List.drop_eq_nil_iff]
          omega
        simp [hdrop]
  unfold numeral
  split
  · exact hpositional (by simp) 1
  · unfold unsignedNumeral
    dsimp only
    split
    · exact hpositional (isDigits_decimal _).1 _
    · simp [scientificNumeral, Numeral.isInteger]

/-- The digits and the place of a float's numeral. There are few digits, since zeros fill up to the
point in short numbers only. -/
theorem digits_numeral (hbelow : l.plainBelow ≤ 16) (negative : Bool) (hx : x.IsFloat) :
    (l.numeral negative x).digits ≤ 10 ^ 17 ∧ 0 < (l.numeral negative x).digits ∧
      ((l.numeral negative x).digits : ℚ) * 10 ^ (l.numeral negative x).place =
        (x.shortest l.tie).value := by
  obtain ⟨zeros, hdigits, hplace, hzeros⟩ := digits_unsignedNumeral l negative (x.shortest l.tie)
  have hpos := hx.digits_shortest_pos l.tie
  rw [numeral, if_neg hx.pos.ne', hdigits, hplace]
  refine ⟨?_, Nat.mul_pos hpos (Nat.pow_pos (by decide)), ?_⟩
  · rcases Nat.eq_zero_or_pos zeros with rfl | hz
    · simpa using hx.digits_shortest_le l.tie
    · -- Zeros are added only where the digits with them stay short.
      have hlength := hzeros hz.ne'
      have hlt : (x.shortest l.tie).digits < 10 ^ (decimal (x.shortest l.tie).digits).length :=
        (Nat.length_toDigits_le_iff (by decide) (List.length_pos_of_ne_nil
          (isDigits_decimal _).1)).mp le_rfl
      calc (x.shortest l.tie).digits * 10 ^ zeros
          ≤ 10 ^ (decimal (x.shortest l.tie).digits).length * 10 ^ zeros :=
            Nat.mul_le_mul_right _ hlt.le
        _ = 10 ^ ((decimal (x.shortest l.tie).digits).length + zeros) := (pow_add ..).symm
        _ ≤ 10 ^ 17 := Nat.pow_le_pow_right (by decide) (by omega)
  · rw [Nat.cast_mul, Nat.cast_pow, Nat.cast_ofNat, mul_assoc,
      Shortest.Magnitude.ten_pow_mul (b := (x.shortest l.tie).exponent) (by ring)]
    rfl

end Layout

end EntityQuery
