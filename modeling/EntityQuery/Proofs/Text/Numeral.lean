import EntityQuery.Text.Numeral
import Mathlib.Algebra.Ring.Nat
import Mathlib.Tactic.Positivity
import Mathlib.Tactic.Ring

/-!
# Digits and the numbers they spell
-/

namespace EntityQuery.Text

/-! ## Digits -/

def IsDigits (ds : List Char) : Prop :=
  ds ≠ [] ∧ ∀ c ∈ ds, c.isDigit = true

theorem isDigits_zero : IsDigits ['0'] := by
  refine ⟨List.cons_ne_nil _ _, fun c hc => ?_⟩
  rw [List.mem_singleton.mp hc]
  rfl

theorem isDigits_decimal (n : ℕ) : IsDigits (decimal n) :=
  ⟨Nat.toDigits_ne_nil, fun _ => Nat.isDigit_of_mem_toDigits (by decide) (by decide)⟩

/-- The digits of a number start with a zero only if it is zero. -/
theorem head?_decimal (n : ℕ) (h : (decimal n).head? = some '0') : n = 0 := by
  induction n using Nat.strongRecOn with
  | ind n ih =>
    rw [decimal, Nat.toDigits_eq_if (by decide)] at h
    split at h
    · exact Nat.digitChar_eq_zero.mp (Option.some.inj h)
    · rename_i hn
      rw [List.head?_append_of_ne_nil _ Nat.toDigits_ne_nil] at h
      have hzero := ih (n / 10) (by omega) h
      omega

theorem spanDigits_append {ds rest : List Char} (hds : ∀ c ∈ ds, c.isDigit = true)
    (hrest : ∀ c ∈ rest.head?, c.isDigit = false) : spanDigits (ds ++ rest) = (ds, rest) := by
  have htake : rest.takeWhile Char.isDigit = [] := by
    cases rest with
    | nil => rfl
    | cons c rest => simp [hrest c rfl]
  have hdrop : rest.dropWhile Char.isDigit = rest := by
    cases rest with
    | nil => rfl
    | cons c rest => simp [hrest c rfl]
  rw [spanDigits, List.takeWhile_append_of_pos hds, List.dropWhile_append_of_pos hds, htake,
    hdrop, List.append_nil]

/-! ## Zeros around a number -/

/-- Zeros behind a number move its digits up. -/
theorem ofDecimal_append_zeros (ds : List Char) (n : ℕ) :
    ofDecimal (ds ++ List.replicate n '0') = ofDecimal ds * 10 ^ n := by
  rw [ofDecimal, Nat.ofDigitChars_append, Nat.ofDigitChars_replicate_zero, Nat.mul_comm]
  rfl

/-- Zeros before a number change nothing. -/
theorem ofDecimal_zeros_append (n : ℕ) (ds : List Char) :
    ofDecimal (List.replicate n '0' ++ ds) = ofDecimal ds := by
  rw [ofDecimal, Nat.ofDigitChars_append, Nat.ofDigitChars_replicate_zero, Nat.mul_zero]
  rfl

/-! ## Numbers of a given width -/

theorem ofDecimal_padded (width n : ℕ) : ofDecimal (padded width n) = n := by
  rw [padded, ofDecimal_zeros_append, ofDecimal_decimal]

theorem isDigits_padded (width n : ℕ) : IsDigits (padded width n) := by
  obtain ⟨hne, hdigits⟩ := isDigits_decimal n
  refine ⟨by simp [padded, hne], fun c hc => ?_⟩
  rcases List.mem_append.mp hc with hc | hc
  · rw [List.eq_of_mem_replicate hc]
    decide
  · exact hdigits c hc

theorem le_length_padded (width n : ℕ) : width ≤ (padded width n).length := by
  rw [padded, List.length_append, List.length_replicate]
  omega

theorem length_padded {width n : ℕ} (hwidth : 0 < width) (hn : n < 10 ^ width) :
    (padded width n).length = width := by
  have hlength : (decimal n).length ≤ width :=
    (Nat.length_toDigits_le_iff (by decide) hwidth).mpr hn
  rw [padded, List.length_append, List.length_replicate]
  omega

/-! ## Numbers told by their digits -/

theorem le_ofDigitChars (n : ℕ) (ds : List Char) : n ≤ Nat.ofDigitChars 10 ds n := by
  induction ds generalizing n with
  | nil => exact Nat.le_refl _
  | cons d ds ih =>
    rw [Nat.ofDigitChars_cons]
    exact Nat.le_trans (by omega) (ih _)

theorem ofDigitChars_eq (ds : List Char) (n : ℕ) :
    Nat.ofDigitChars 10 ds n = n * 10 ^ ds.length + ofDecimal ds := by
  induction ds generalizing n with
  | nil => simp [ofDecimal, Nat.ofDigitChars]
  | cons d ds ih =>
    rw [ofDecimal, Nat.ofDigitChars_cons, Nat.ofDigitChars_cons, ih, ih (10 * 0 + _),
      List.length_cons, pow_succ]
    ring

theorem ofDecimal_append (ds es : List Char) :
    ofDecimal (ds ++ es) = ofDecimal ds * 10 ^ es.length + ofDecimal es := by
  rw [ofDecimal, Nat.ofDigitChars_append, ofDigitChars_eq]
  rfl

theorem ofDecimal_cons (d : Char) (ds : List Char) :
    ofDecimal (d :: ds) = (d.toNat - 48) * 10 ^ ds.length + ofDecimal ds := by
  have hd : ofDecimal [d] = d.toNat - 48 := by simp [ofDecimal, Nat.ofDigitChars]
  rw [← List.singleton_append, ofDecimal_append, hd]

theorem isDigit_iff {c : Char} : c.isDigit = true ↔ 48 ≤ c.toNat ∧ c.toNat ≤ 57 := by
  rw [Char.isDigit, Bool.and_eq_true, decide_eq_true_iff, decide_eq_true_iff]
  exact and_congr UInt32.le_iff_toNat_le UInt32.le_iff_toNat_le

theorem ofDecimal_lt {ds : List Char} (h : ∀ d ∈ ds, d.isDigit = true) :
    ofDecimal ds < 10 ^ ds.length := by
  induction ds with
  | nil => decide
  | cons d ds ih =>
    have hd : d.toNat - 48 ≤ 9 := by
      have hdigit := isDigit_iff.mp (h d List.mem_cons_self)
      omega
    have hds := ih fun e he => h e (List.mem_cons_of_mem _ he)
    have hmul := Nat.mul_le_mul_right (10 ^ ds.length) hd
    rw [ofDecimal_cons, List.length_cons, pow_succ]
    omega

/-- Of one length, different digits spell different numbers. -/
theorem eq_of_ofDecimal_eq {ds es : List Char} (hds : ∀ d ∈ ds, d.isDigit = true)
    (hes : ∀ e ∈ es, e.isDigit = true) (hlength : ds.length = es.length)
    (h : ofDecimal ds = ofDecimal es) : ds = es := by
  induction ds generalizing es with
  | nil => exact (List.length_eq_zero_iff.mp hlength.symm).symm
  | cons d ds ih =>
    obtain ⟨e, es, rfl⟩ := List.exists_cons_of_length_eq_add_one hlength.symm
    have hlength : ds.length = es.length := Nat.succ.inj hlength
    rw [List.forall_mem_cons] at hds hes
    rw [ofDecimal_cons, ofDecimal_cons, hlength] at h
    have hltd := hlength ▸ ofDecimal_lt hds.2
    have hlte := ofDecimal_lt hes.2
    -- The first digits are the quotients, the numbers that the others spell are the remainders.
    have hfirst : d.toNat - 48 = e.toNat - 48 := by
      have hpos : 0 < 10 ^ es.length := by positivity
      have hdiv := congrArg (· / 10 ^ es.length) h
      simpa only [Nat.add_comm _ (ofDecimal _), Nat.add_mul_div_right _ _ hpos,
        Nat.div_eq_of_lt hltd, Nat.div_eq_of_lt hlte, Nat.zero_add] using hdiv
    have hde : d = e := by
      rw [← Char.toNat_inj]
      have hd := isDigit_iff.mp hds.1
      have he := isDigit_iff.mp hes.1
      omega
    rw [hfirst] at h
    rw [hde, ih hds.2 hes.2 hlength (by omega)]

/-- Digits are what is written for the number that they spell, in as many places. -/
theorem padded_ofDecimal {ds : List Char} (h : IsDigits ds) :
    padded ds.length (ofDecimal ds) = ds := by
  have hlength : 0 < ds.length := List.length_pos_iff.mpr h.1
  exact eq_of_ofDecimal_eq (isDigits_padded _ _).2 h.2
    (length_padded hlength (ofDecimal_lt h.2)) (ofDecimal_padded _ _)

end EntityQuery.Text
