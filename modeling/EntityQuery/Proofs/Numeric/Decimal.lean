import EntityQuery.Numeric.Decimal
import EntityQuery.Proofs.Text.Numeral

/-!
# Reading written decimals

The text of a decimal is read as the decimal with all its places. Only the sign of a zero is lost.
-/

namespace EntityQuery

namespace Decimal

open Text

/-- The decimal without the sign of a zero. -/
def positiveZero (d : Decimal) : Decimal :=
  { d with negative := d.negative && d.mantissa != 0 }

theorem ofRead?_eq (d : Decimal) : ofRead? d.negative d.mantissa d.scale = some d.positiveZero := by
  rw [ofRead?, ofParts?, dif_pos ⟨d.mantissa_lt, d.scale_le⟩]
  rfl

/-- Digits for which there is room are all taken. Behind the point each of them is a place. -/
theorem readDigits_append (negative : Bool) (mantissa scale : ℕ) (point digits : Bool)
    {ds : List Char} (rest : List Char) (hds : ∀ c ∈ ds, c.isDigit = true)
    (hfits : Nat.ofDigitChars 10 ds mantissa < limit)
    (hscale : if point then scale + ds.length ≤ maxScale else scale = 0) :
    readDigits negative ⟨mantissa, scale, point, digits⟩ (ds ++ rest) =
      readDigits negative ⟨Nat.ofDigitChars 10 ds mantissa,
        if point then scale + ds.length else 0, point, digits || !ds.isEmpty⟩ rest := by
  induction ds generalizing mantissa scale digits with
  | nil => cases point <;> simp_all
  | cons d ds ih =>
    have hd : digit? d = some (d.toNat - 48) := if_pos (hds d List.mem_cons_self)
    have hnext : Nat.ofDigitChars 10 ds (mantissa * 10 + (d.toNat - 48)) =
        Nat.ofDigitChars 10 (d :: ds) mantissa := by
      rw [Nat.ofDigitChars_cons, Nat.mul_comm]
      rfl
    have hlt : mantissa * 10 + (d.toNat - 48) < limit :=
      Nat.lt_of_le_of_lt (le_ofDigitChars _ ds) (hnext ▸ hfits)
    have hroom : (⟨mantissa, scale, point, digits⟩ : Progress).isFull = false := by
      cases point with
      | false => rfl
      | true =>
        simp only [if_true, List.length_cons] at hscale
        simp only [Progress.isFull, Bool.true_and, decide_eq_false_iff_not]
        omega
    rw [List.cons_append, readDigits, hd]
    simp only [hroom, Bool.false_eq_true, if_false, if_pos hlt]
    rw [ih _ _ _ (fun c hc => hds c (List.mem_cons_of_mem _ hc)) (hnext ▸ hfits), hnext]
    · -- A digit behind the point is a place.
      cases point <;> simp [Nat.add_right_comm, Nat.add_assoc]
    · cases point with
      | false => rfl
      | true =>
        simp only [if_true, List.length_cons] at hscale ⊢
        omega

theorem readDigits_point (negative : Bool) (mantissa scale : ℕ) (digits : Bool) (rest : List Char) :
    readDigits negative ⟨mantissa, scale, false, digits⟩ ('.' :: rest) =
      readDigits negative ⟨mantissa, scale, true, digits⟩ rest := by
  rw [readDigits]
  rfl

theorem readDigits_unsignedText (d : Decimal) :
    readDigits d.negative .start d.unsignedText = some d.positiveZero := by
  obtain ⟨hne, hdigits⟩ := isDigits_padded (d.scale + 1) d.mantissa
  have hvalue : Nat.ofDigitChars 10 (padded (d.scale + 1) d.mantissa) 0 = d.mantissa :=
    ofDecimal_padded _ _
  have hlength := le_length_padded (d.scale + 1) d.mantissa
  have hmantissa := d.mantissa_lt
  unfold unsignedText
  generalize padded (d.scale + 1) d.mantissa = ds at *
  dsimp only
  split
  · rename_i hwhole
    have hread := readDigits_append d.negative 0 0 false false [] hdigits (hvalue ▸ hmantissa) rfl
    rw [List.append_nil, hvalue] at hread
    rw [Progress.start, hread, ← ofRead?_eq, hwhole]
    -- Nothing follows the digits.
    simp [readDigits, hne]
  · set whole := ds.take (ds.length - d.scale) with hwhole
    set places := ds.drop (ds.length - d.scale) with hplaces
    have hjoin : Nat.ofDigitChars 10 places (Nat.ofDigitChars 10 whole 0) = d.mantissa := by
      rw [← Nat.ofDigitChars_append, List.take_append_drop, hvalue]
    have hscale : places.length = d.scale := by
      rw [hplaces, List.length_drop]
      omega
    have hwholeNe : whole ≠ [] := by
      rw [hwhole, ne_eq, List.take_eq_nil_iff]
      exact fun h => h.elim (by omega) hne
    have hwholeRead := readDigits_append d.negative 0 0 false false ('.' :: places)
      (fun c hc => hdigits c (List.mem_of_mem_take hc))
      (Nat.lt_of_le_of_lt (le_ofDigitChars _ places) (hjoin ▸ hmantissa)) rfl
    have hplacesRead := readDigits_append d.negative _ 0 true true []
      (fun c hc => hdigits c (List.mem_of_mem_drop hc)) (hjoin ▸ hmantissa)
      (by rw [if_pos rfl, Nat.zero_add, ← hplaces, hscale]; exact d.scale_le)
    rw [List.append_nil, hjoin, hscale] at hplacesRead
    rw [Progress.start, hwholeRead, readDigits_point, ← ofRead?_eq]
    rw [List.isEmpty_eq_false_iff.mpr hwholeNe]
    refine hplacesRead.trans ?_
    rw [if_pos rfl, Nat.zero_add]
    rfl

/-- The text of a decimal without its sign starts with a digit. -/
theorem head_unsignedText (d : Decimal) :
    ∃ c cs, d.unsignedText = c :: cs ∧ c.isDigit = true := by
  obtain ⟨hne, hdigits⟩ := isDigits_padded (d.scale + 1) d.mantissa
  have hlength := le_length_padded (d.scale + 1) d.mantissa
  unfold unsignedText
  generalize padded (d.scale + 1) d.mantissa = ds at *
  obtain ⟨c, ds, rfl⟩ := List.exists_cons_of_ne_nil hne
  have hc := hdigits c List.mem_cons_self
  dsimp only
  split
  · exact ⟨c, ds, rfl, hc⟩
  · obtain ⟨n, hn⟩ : ∃ n, (c :: ds).length - d.scale = n + 1 :=
      Nat.exists_eq_add_one_of_ne_zero (by omega)
    rw [hn]
    exact ⟨c, _, rfl, hc⟩

/-- **The text of a decimal is read as the decimal**, apart from the sign of a zero. -/
theorem ofText?_toText (d : Decimal) : ofText? d.toText = some d.positiveZero := by
  have hread := readDigits_unsignedText d
  have hpositional : ofPositional? d.toText.toList = some d.positiveZero := by
    rw [toText, String.toList_ofList]
    split
    · rename_i hnegative
      rwa [hnegative] at hread
    · rename_i hpositive
      obtain ⟨c, cs, htext, hc⟩ := head_unsignedText d
      rw [Bool.not_eq_true] at hpositive
      rw [hpositive, htext] at hread
      rw [htext]
      -- A digit is no sign.
      unfold ofPositional?
      split
      · exact absurd hc (by simp_all)
      · exact absurd hc (by simp_all)
      · exact hread
  rw [ofText?, hpositional]
  rfl

end Decimal

end EntityQuery
