import EntityQuery.Condition.Operand

/-!
# Literals that no negation can give

Negation folds numbers into numbers. A literal of another type is therefore written as it is.
-/

namespace EntityQuery

theorem Literal.neg?_ne_string (l : Literal) (s : String) : l.neg? ≠ some (.string s) := by
  unfold neg?
  split
  · split <;> simp
  all_goals simp

theorem Literal.neg?_ne_boolean (l : Literal) (b : Bool) : l.neg? ≠ some (.boolean b) := by
  unfold neg?
  split
  · split <;> simp
  all_goals simp

theorem Node.eq_literal_of_literal? {n : Node} {l : Literal} (h : n.literal? = .ok (some l))
    (hneg : ∀ l' : Literal, l'.neg? ≠ some l) : n = .literal l := by
  unfold Node.literal? at h
  split at h
  · cases h
    rfl
  · split at h
    · cases h
    · cases h
    · rename_i l' _
      split at h
      · rename_i hl'
        cases h
        exact absurd hl' (hneg l')
      · cases h
  · cases h

end EntityQuery
