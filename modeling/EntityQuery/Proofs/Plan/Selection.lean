import EntityQuery.Proofs.FieldPath.Covering
import EntityQuery.Proofs.Plan.Growth

/-!
# Selections stay minimal

Adding a path to a selection in which no path covers another gives such a selection again. The
fields a plan selects and the fields its joins keep are put together in this way only, so neither
ever names a field twice.
-/

namespace EntityQuery

namespace Selection

/-- No path of the selection is at or below another one. -/
def IsMinimal (s : Selection) : Prop :=
  s.Pairwise fun p q => p.meets q = false

theorem isMinimal_nil : IsMinimal [] :=
  List.Pairwise.nil

theorem covers_iff {s : Selection} {p : FieldPath} :
    s.covers p = true ↔ ∃ q ∈ s, q.covers p = true := by
  rw [covers, List.any_eq_true]

theorem overlaps_iff {s : Selection} {p : FieldPath} :
    s.overlaps p = true ↔ ∃ q ∈ s, q.meets p = true := by
  rw [overlaps, List.any_eq_true]
  rfl

theorem overlaps_eq_false_iff {s : Selection} {p : FieldPath} :
    s.overlaps p = false ↔ ∀ q ∈ s, q.meets p = false := by
  rw [overlaps, List.any_eq_false]
  simp only [FieldPath.meets, Bool.not_eq_true]

theorem isMinimal_add {s : Selection} (h : s.IsMinimal) (p : FieldPath) : (s.add p).IsMinimal := by
  unfold add
  split
  · exact h
  · rename_i hcovers
    refine List.pairwise_append.mpr ⟨h.filter _, List.pairwise_singleton _ _, ?_⟩
    intro q hq r hr
    obtain ⟨hqs, hpq⟩ := List.mem_filter.mp hq
    have hqp : q.covers p = false := by
      rw [← Bool.not_eq_true]
      exact fun hqp => hcovers (covers_iff.mpr ⟨q, hqs, hqp⟩)
    have hpq : p.covers q = false := by simpa using hpq
    rw [List.mem_singleton.mp hr, FieldPath.meets, hqp, hpq]
    rfl

theorem isMinimal_foldl_add {s : Selection} (h : s.IsMinimal) (paths : List FieldPath) :
    (paths.foldl add s).IsMinimal := by
  induction paths generalizing s with
  | nil => exact h
  | cons p paths ih => exact ih (isMinimal_add h p)

/-! ## What a selection covers -/

theorem covers_add {s : Selection} {p q : FieldPath} :
    (s.add p).covers q = true ↔ s.covers q = true ∨ p.covers q = true := by
  unfold add
  by_cases h : s.covers p = true
  · rw [if_pos h]
    -- Whatever the path covers is covered by the path above it.
    obtain ⟨r, hr, hrp⟩ := covers_iff.mp h
    constructor
    · exact Or.inl
    · rintro (hs | hpq)
      · exact hs
      · exact covers_iff.mpr ⟨r, hr, FieldPath.covers_trans hrp hpq⟩
  · rw [if_neg h]
    simp only [covers_iff, List.mem_append, List.mem_filter, List.mem_singleton]
    constructor
    · rintro ⟨r, ⟨hr, -⟩ | rfl, hrq⟩
      · exact Or.inl ⟨r, hr, hrq⟩
      · exact Or.inr hrq
    · rintro (⟨r, hr, hrq⟩ | hpq)
      · -- A path that had to go is covered by the one that took its place.
        by_cases hpr : p.covers r = true
        · exact ⟨p, Or.inr rfl, FieldPath.covers_trans hpr hrq⟩
        · exact ⟨r, Or.inl ⟨hr, by simpa using hpr⟩, hrq⟩
      · exact ⟨p, Or.inr rfl, hpq⟩

theorem covers_foldl_add {s : Selection} {paths : List FieldPath} {q : FieldPath} :
    (paths.foldl add s).covers q = true ↔
      s.covers q = true ∨ ∃ p ∈ paths, p.covers q = true := by
  induction paths generalizing s with
  | nil => simp
  | cons p paths ih =>
    rw [List.foldl_cons, ih, covers_add, or_assoc]
    simp

theorem mem_of_mem_foldl_add {s : Selection} {paths : List FieldPath} {q : FieldPath}
    (h : q ∈ paths.foldl add s) : q ∈ s ∨ q ∈ paths := by
  induction paths generalizing s with
  | nil => exact Or.inl h
  | cons p paths ih =>
    rcases ih h with h | h
    · unfold add at h
      split at h
      · exact Or.inl h
      · rcases List.mem_append.mp h with h | h
        · exact Or.inl (List.mem_filter.mp h).1
        · exact Or.inr (List.mem_cons.mpr (Or.inl (List.mem_singleton.mp h)))
    · exact Or.inr (List.mem_cons_of_mem _ h)

end Selection

namespace Plan

variable {o : Options} {p q : Plan}

/-- What a plan selects is minimal from the start to the end. -/
theorem Grows.isMinimal_selection (h : Grows o p q) (hp : p.selection.IsMinimal) :
    q.selection.IsMinimal := by
  induction h with
  | refl => exact hp
  | select _ _ ih => exact Selection.isMinimal_foldl_add (ih hp) _
  | join _ _ _ ih _ => exact ih hp
  | _ => rename_i ih; exact ih hp

/-- The fields that the clauses of a plan read or keep. -/
def fieldsRead (p : Plan) : List FieldPath :=
  p.selection ++ p.filterPaths ++ p.sort.map Prod.fst ++ p.expanded

/-- A field that is not below the association adds nothing to what its join keeps, any other one is
added by the rule of selections. -/
theorem keptBelow_eq {nested : Plan} (h : nested.selection ≠ []) (association : FieldPath) :
    nested.keptBelow association =
      (nested.fieldsRead.filterMap fun path => path.below? association).foldl Selection.add [] := by
  rw [keptBelow, if_neg (by simpa using h), List.foldl_filterMap, fieldsRead]
  congr 1
  funext kept path
  cases path.below? association <;> rfl

theorem isMinimal_keptBelow (nested : Plan) (association : FieldPath) :
    Selection.IsMinimal (nested.keptBelow association) := by
  by_cases h : nested.selection = []
  · rw [keptBelow, h]
    exact Selection.isMinimal_nil
  · rw [keptBelow_eq h]
    exact Selection.isMinimal_foldl_add Selection.isMinimal_nil _

end Plan

end EntityQuery
