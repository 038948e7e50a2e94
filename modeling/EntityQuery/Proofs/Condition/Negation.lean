import EntityQuery.Proofs.Condition.Values
import Mathlib.Algebra.Ring.Int.Parity
import Mathlib.Logic.Function.Iterate
import Mathlib.Tactic.Ring

/-!
# Literals behind signs

A literal can stand behind any number of minus signs. Each of them turns a number round, and no
integer wraps on the way. The least integer, and what is no number, can stand behind no sign at all.
-/

namespace EntityQuery

/-- The node behind `k` minus signs. -/
def Node.negated (n : Node) : ℕ → Node
  | 0 => n
  | k + 1 => .unary .negate (n.negated k)

/-- The opposite of an integer is exact, unless it is the least one. -/
theorem toInt_neg_of_ne_minValue {n : Int64} (h : n ≠ Int64.minValue) :
    (-n).toInt = -n.toInt := by
  have hne : n.toInt ≠ -2 ^ 63 := fun heq => h (Int64.toInt_inj.mp heq)
  have hle := n.le_toInt
  have hlt := n.toInt_lt
  rw [Int64.toInt_neg]
  exact Int.bmod_eq_of_le (by omega) (by omega)

/-! ## Signs of numbers with a point -/

/-- The float with its sign changed `k` times; NaN has none. -/
def Binary64.flipped (k : ℕ) : Binary64 → Binary64
  | .nan => .nan
  | .infinite negative => .infinite (not^[k] negative)
  | .finite negative exponent fraction => .finite (not^[k] negative) exponent fraction

/-- The decimal with its sign changed `k` times. -/
def Decimal.flipped (k : ℕ) (d : Decimal) : Decimal :=
  { d with negative := not^[k] d.negative }

@[simp] theorem Binary64.flipped_zero (x : Binary64) : x.flipped 0 = x := by
  cases x <;> rfl

theorem Binary64.neg_flipped (k : ℕ) (x : Binary64) : (x.flipped k).neg = x.flipped (k + 1) := by
  cases x with
  | nan => rfl
  | infinite => rw [flipped, flipped, neg, Function.iterate_succ_apply']
  | finite => rw [flipped, flipped, neg, Function.iterate_succ_apply']

theorem Decimal.neg_flipped (k : ℕ) (d : Decimal) : (d.flipped k).neg = d.flipped (k + 1) := by
  rw [flipped, flipped, neg, Function.iterate_succ_apply']

/-! ## Folding -/

namespace Literal

/-- What a literal behind `k` minus signs is read as. Without a sign it is itself. Signs multiply an
integer by as many `-1`, and change the sign of another number as often. -/
inductive Folds : Literal → ℕ → Except CompileError Literal → Prop
  | bare (l : Literal) : Folds l 0 (.ok l)
  | integer {n m : Int64} {k : ℕ} (hk : 0 < k) (hn : n ≠ Int64.minValue)
      (hm : m.toInt = (-1) ^ k * n.toInt) : Folds (.integer n) k (.ok (.integer m))
  | double (x : Binary64) {k : ℕ} (hk : 0 < k) :
      Folds (.double x) k (.ok (.double (x.flipped k)))
  | decimal (d : Decimal) {k : ℕ} (hk : 0 < k) :
      Folds (.decimal d) k (.ok (.decimal (d.flipped k)))
  | refused {l : Literal} {k : ℕ} (hk : 0 < k)
      (hl : l = .integer Int64.minValue ∨ l.type ∉ [.integer, .double, .decimal]) :
      Folds l k (.error (.literal .numericNegation .number l.type.describe))

/-- What one more minus sign makes of a literal. -/
def opposite (l : Literal) : Except CompileError Literal :=
  match l.neg? with
  | some l' => .ok l'
  | none => .error (.literal .numericNegation .number l.type.describe)

theorem opposite_integer {n : Int64} (h : n ≠ Int64.minValue) :
    opposite (.integer n) = .ok (.integer (-n)) := by
  rw [opposite, neg?, if_neg h]

theorem opposite_double (k : ℕ) (x : Binary64) :
    opposite (.double (x.flipped k)) = .ok (.double (x.flipped (k + 1))) := by
  rw [← x.neg_flipped]
  rfl

theorem opposite_decimal (k : ℕ) (d : Decimal) :
    opposite (.decimal (d.flipped k)) = .ok (.decimal (d.flipped (k + 1))) := by
  rw [← d.neg_flipped]
  rfl

variable {l : Literal} {k : ℕ} {r r' : Except CompileError Literal}

/-- Signs before an integer that has an opposite never give the least integer. -/
theorem ne_minValue_of_signs {n m : Int64} (hn : n ≠ Int64.minValue)
    (hm : m.toInt = (-1) ^ k * n.toInt) : m ≠ Int64.minValue := by
  rintro rfl
  rcases neg_one_pow_eq_or ℤ k with hsign | hsign
  · rw [hsign, one_mul] at hm
    exact hn (Int64.toInt_inj.mp hm.symm)
  · have hlt := n.toInt_lt
    rw [hsign, Int64.toInt_minValue] at hm
    omega

/-- One more sign turns round what was read, and what was refused stays refused. -/
theorem Folds.succ (h : l.Folds k r) : l.Folds (k + 1) (r.bind opposite) := by
  cases h with
  | bare l =>
    -- The first sign decides whether the literal can stand behind signs at all.
    cases l with
    | integer n =>
      by_cases hn : n = Int64.minValue
      · rw [hn]
        exact .refused Nat.one_pos (.inl rfl)
      · have hopposite : (Except.ok (.integer n)).bind opposite = .ok (.integer (-n)) :=
          opposite_integer hn
        rw [hopposite]
        exact .integer Nat.one_pos hn (by rw [toInt_neg_of_ne_minValue hn]; ring)
    | double x =>
      have hopposite : (Except.ok (.double x)).bind opposite = .ok (.double (x.flipped 1)) := by
        have hzero := opposite_double 0 x
        rwa [x.flipped_zero] at hzero
      rw [hopposite]
      exact .double x Nat.one_pos
    | decimal d => exact .decimal d Nat.one_pos
    | _ => exact .refused Nat.one_pos (.inr (by simp [type]))
  | @integer n m _ hk hn hm =>
    have hmin := ne_minValue_of_signs hn hm
    have hopposite : (Except.ok (.integer m)).bind opposite = .ok (.integer (-m)) :=
      opposite_integer hmin
    rw [hopposite]
    exact .integer k.succ_pos hn (by rw [toInt_neg_of_ne_minValue hmin, hm]; ring)
  | double x hk =>
    have hopposite : (Except.ok (.double (x.flipped k))).bind opposite =
        .ok (.double (x.flipped (k + 1))) := opposite_double k x
    rw [hopposite]
    exact .double x k.succ_pos
  | decimal d hk =>
    have hopposite : (Except.ok (.decimal (d.flipped k))).bind opposite =
        .ok (.decimal (d.flipped (k + 1))) := opposite_decimal k d
    rw [hopposite]
    exact .decimal d k.succ_pos
  | refused hk hl => exact .refused k.succ_pos hl

theorem exists_folds (l : Literal) (k : ℕ) : ∃ r, l.Folds k r := by
  induction k with
  | zero => exact ⟨_, .bare l⟩
  | succ k ih =>
    obtain ⟨r, hr⟩ := ih
    exact ⟨_, hr.succ⟩

/-- A literal behind signs is read in one way. -/
theorem Folds.unique (h : l.Folds k r) (h' : l.Folds k r') : r = r' := by
  -- The number of signs tells the first rule from the others, and the literal tells these.
  cases h with
  | bare =>
    cases h' with
    | bare => rfl
    | _ => contradiction
  | integer hk hn hm =>
    cases h' with
    | bare => contradiction
    | integer _ _ hm' => rw [Int64.toInt_inj.mp (hm.trans hm'.symm)]
    | refused _ hl => simp [hn, type] at hl
  | double x hk =>
    cases h' with
    | bare => contradiction
    | double => rfl
    | refused _ hl => simp [type] at hl
  | decimal d hk =>
    cases h' with
    | bare => contradiction
    | decimal => rfl
    | refused _ hl => simp [type] at hl
  | refused hk hl =>
    cases h' with
    | bare => contradiction
    | integer _ hn _ => simp [hn, type] at hl
    | double => simp [type] at hl
    | decimal => simp [type] at hl
    | refused => rfl

end Literal

namespace Node

open Literal (Folds)

theorem literal?_negate {operand : Node} {r : Except CompileError Literal}
    (h : operand.literal? = r.map some) :
    (Node.unary .negate operand).literal? = (r.bind Literal.opposite).map some := by
  rw [literal?, h]
  cases r with
  | error e => rfl
  | ok l =>
    show _ = l.opposite.map some
    rw [Literal.opposite]
    dsimp only [Except.map]
    cases l.neg? <;> rfl

theorem literal?_of_folds {l : Literal} {k : ℕ} {r : Except CompileError Literal}
    (h : l.Folds k r) : ((Node.literal l).negated k).literal? = r.map some := by
  induction k generalizing r with
  | zero =>
    cases h with
    | bare => rfl
    | _ => contradiction
  | succ k ih =>
    -- What is read for one sign less is not told by `r`, so it is found first.
    obtain ⟨r', h'⟩ := l.exists_folds k
    rw [h.unique h'.succ]
    exact literal?_negate (ih h')

/-- A literal behind any number of signs is read as what it folds to, and as nothing else. -/
theorem literal?_negated_iff {l : Literal} {k : ℕ} {r : Except CompileError Literal} :
    ((Node.literal l).negated k).literal? = r.map some ↔ l.Folds k r := by
  refine ⟨fun h => ?_, literal?_of_folds⟩
  obtain ⟨r', h'⟩ := l.exists_folds k
  have hmap : r'.map some = r.map some := (literal?_of_folds h').symm.trans h
  have hr : r' = r := by
    cases r <;> cases r' <;> simp_all [Except.map]
  exact hr ▸ h'

/-- The opposite of the least integer is refused before the second sign is looked at. -/
example : ((Node.literal (.integer Int64.minValue)).negated 2).literal? =
    .error (.literal .numericNegation .number "integer") := by
  rfl

/-- A node that stands for a literal is itself a literal behind signs. -/
theorem StandsFor.exists_negated {n : Node} {l : Literal} (h : n.StandsFor l) :
    ∃ l₀ k, n = (Node.literal l₀).negated k := by
  induction h with
  | literal l => exact ⟨l, 0, rfl⟩
  | integer _ _ ih | double _ ih | decimal _ ih =>
    obtain ⟨l₀, k, rfl⟩ := ih
    exact ⟨l₀, k + 1, rfl⟩

end Node

end EntityQuery
