import EntityQuery.Compile.Error
import EntityQuery.Proofs.FieldPath.Dotted

/-!
# Covering paths

A path covers itself and the paths below it. This is an order on paths in which the paths above any
given one form a chain, and a field named below a base is covered by the base.
-/

namespace EntityQuery

namespace FieldPath

variable {p q r : FieldPath}

theorem covers_iff : p.covers q = true ↔ p.segments <+: q.segments := by
  rw [covers, List.isPrefixOf_iff_prefix]

theorem covers_refl (p : FieldPath) : p.covers p = true :=
  covers_iff.mpr (List.prefix_refl _)

theorem covers_trans (h : p.covers q = true) (h' : q.covers r = true) : p.covers r = true :=
  covers_iff.mpr ((covers_iff.mp h).trans (covers_iff.mp h'))

theorem covers_antisymm (h : p.covers q = true) (h' : q.covers p = true) : p = q := by
  have hlen : q.segments.length ≤ p.segments.length := (covers_iff.mp h').length_le
  exact ext_segments ((covers_iff.mp h).eq_of_length_le hlen)

theorem covers_append (p q : FieldPath) : p.covers (p ++ q) = true :=
  covers_iff.mpr (List.prefix_append _ _)

/-! ## Paths on one line -/

/-- One of two paths is at or below the other. -/
def meets (p q : FieldPath) : Bool :=
  p.covers q || q.covers p

theorem meets_iff : p.meets q = true ↔ p.covers q = true ∨ q.covers p = true := by
  rw [meets, Bool.or_eq_true]

theorem meets_eq_false_iff :
    p.meets q = false ↔ ¬p.segments <+: q.segments ∧ ¬q.segments <+: p.segments := by
  rw [← Bool.not_eq_true, meets_iff, covers_iff, covers_iff, not_or]

theorem meets_comm (p q : FieldPath) : p.meets q = q.meets p :=
  Bool.or_comm _ _

theorem meets_refl (p : FieldPath) : p.meets p = true :=
  meets_iff.mpr (Or.inl (covers_refl p))

end FieldPath

/-! ## Fields below a base -/

/-- The path is that of a field named below the base, if there is one. -/
def FieldPath.IsBelow (base? : Option FieldPath) (p : FieldPath) : Prop :=
  ∀ base, base? = some base → ∃ r, p = base ++ r

theorem Node.isBelow_of_fieldPath {n : Node} {base? : Option FieldPath} {p : FieldPath}
    (h : n.fieldPath base? = .ok p) : p.IsBelow base? := by
  rintro base rfl
  unfold fieldPath at h
  split at h
  · split at h
    · cases h
      exact ⟨_, rfl⟩
    · cases h
  · cases h

/-- The base covers the fields that are named below it. -/
theorem Node.base_covers_of_fieldPath {n : Node} {base p : FieldPath}
    (h : n.fieldPath (some base) = .ok p) : base.covers p = true := by
  obtain ⟨r, rfl⟩ := isBelow_of_fieldPath h base rfl
  exact FieldPath.covers_append base r

end EntityQuery
