import EntityQuery.Proofs.Plan.Selection

/-!
# The joins of a plan

Every join belongs to one of the associations that are joined at the level of the plan: it lies at
that association or below it. What a join keeps of the joined records is minimal, and joins narrow
the records in no other way.
-/

namespace EntityQuery

/-- The stage neither joins nor projects. -/
def Stage.isPlain : Stage → Bool
  | .lookup .. | .project _ => false
  | _ => true

namespace Plan

variable {o : Options} {p q : Plan}

/-! ## The stages of one association -/

theorem isPlain_of_mem_matchingStage {s : Stage} (h : s ∈ p.matchingStage) : s.isPlain = true := by
  unfold matchingStage at h
  split at h
  · cases h
  · rw [List.mem_singleton.mp h]
    rfl

theorem isPlain_of_mem_sortStage {s : Stage} (h : s ∈ p.sortStage) : s.isPlain = true := by
  unfold sortStage at h
  split at h
  · cases h
  · rw [List.mem_singleton.mp h]
    rfl

theorem isPlain_of_mem_skipStage {s : Stage} (h : s ∈ p.skipStage) : s.isPlain = true := by
  obtain ⟨count, -, rfl⟩ := Option.map_eq_some_iff.mp (Option.mem_toList.mp h)
  rfl

theorem isPlain_of_mem_limitStage {s : Stage} (h : s ∈ p.limitStage) : s.isPlain = true := by
  obtain ⟨count, -, rfl⟩ := Option.map_eq_some_iff.mp (Option.mem_toList.mp h)
  rfl

/-- The stages of an association without the joins below it. -/
def ownStages (foreignField : String) (unwind : Bool) (association : FieldPath) (nested : Plan) :
    List Stage :=
  .lookup association foreignField (nested.keptBelow association) ::
    (if unwind then [.unwind association] else []) ++ nested.matchingStage ++ nested.sortStage ++
      nested.skipStage ++ nested.limitStage

theorem joinStages_eq (foreignField : String) (unwind : Bool) (association : FieldPath)
    (nested : Plan) :
    joinStages foreignField unwind association nested =
      ownStages foreignField unwind association nested ++ nested.joins :=
  rfl

/-- A stage of an association's own is its join or a plain one. -/
theorem mem_ownStages {foreignField : String} {unwind : Bool} {association : FieldPath}
    {nested : Plan} {s : Stage} (h : s ∈ ownStages foreignField unwind association nested) :
    s = .lookup association foreignField (nested.keptBelow association) ∨ s.isPlain = true := by
  simp only [ownStages, List.mem_cons, List.mem_append] at h
  rcases h with ((((h | h) | h) | h) | h) | h
  · exact Or.inl h
  · right
    cases unwind with
    | false => simp at h
    | true =>
      rw [if_pos rfl, List.mem_singleton] at h
      rw [h]
      rfl
  · exact Or.inr (isPlain_of_mem_matchingStage h)
  · exact Or.inr (isPlain_of_mem_sortStage h)
  · exact Or.inr (isPlain_of_mem_skipStage h)
  · exact Or.inr (isPlain_of_mem_limitStage h)

/-- A stage of an association is its join, or belongs to a deeper one, or is plain. -/
theorem mem_joinStages {foreignField : String} {unwind : Bool} {association : FieldPath}
    {nested : Plan} {s : Stage} (h : s ∈ joinStages foreignField unwind association nested) :
    s = .lookup association foreignField (nested.keptBelow association) ∨ s ∈ nested.joins ∨
      s.isPlain = true := by
  rw [joinStages_eq] at h
  rcases List.mem_append.mp h with h | h
  · exact (mem_ownStages h).imp_right Or.inr
  · exact Or.inr (Or.inl h)

/-- A stage of a pipeline joins, is the last projection, or is plain. -/
theorem mem_pipeline {s : Stage} (h : s ∈ p.pipeline) :
    s ∈ p.joins ∨ s ∈ p.projectStage ∨ s.isPlain = true := by
  simp only [pipeline, List.mem_append] at h
  rcases h with ((((h | h) | h) | h) | h) | h
  · exact Or.inr (Or.inr (isPlain_of_mem_matchingStage h))
  · exact Or.inl h
  · exact Or.inr (Or.inl h)
  · exact Or.inr (Or.inr (isPlain_of_mem_sortStage h))
  · exact Or.inr (Or.inr (isPlain_of_mem_skipStage h))
  · exact Or.inr (Or.inr (isPlain_of_mem_limitStage h))

/-! ## Joins below associations -/

/-- What holds of the joins of a plan and of the associations they belong to. -/
structure WellJoined (p : Plan) : Prop where
  base_covers : ∀ base, p.base? = some base → ∀ t ∈ p.expanded, base.covers t = true
  exists_covers : ∀ a f kept, .lookup a f kept ∈ p.joins → ∃ t ∈ p.expanded, t.covers a = true
  isMinimal_kept : ∀ a f kept, .lookup a f kept ∈ p.joins → Selection.IsMinimal kept
  no_project : ∀ paths, .project paths ∉ p.joins

theorem wellJoined_start (base? : Option FieldPath) : WellJoined (.start base?) where
  base_covers := by simp [start]
  exists_covers := by simp [start]
  isMinimal_kept := by simp [start]
  no_project := by simp [start]

theorem WellJoined.join (hp : WellJoined p) {nested : Plan} {association : FieldPath}
    (hbase : ∀ base, p.base? = some base → base.covers association = true)
    (hnested : WellJoined nested) (hnestedBase : nested.base? = some association)
    (foreignField : String) (unwind : Bool) :
    WellJoined (p.join association (joinStages foreignField unwind association nested)) where
  base_covers base h t ht := by
    rcases List.mem_append.mp ht with ht | ht
    · exact hp.base_covers base h t ht
    · rw [List.mem_singleton.mp ht]
      exact hbase base h
  exists_covers a f kept h := by
    have hassociation : association ∈ p.expanded ++ [association] := by simp
    rcases List.mem_append.mp h with h | h
    · obtain ⟨t, ht, hta⟩ := hp.exists_covers a f kept h
      exact ⟨t, List.mem_append_left _ ht, hta⟩
    · rcases mem_joinStages h with h | h | h
      · cases h
        exact ⟨association, hassociation, association.covers_refl⟩
      · -- A deeper join lies below an association of the nested plan, so below this one.
        obtain ⟨t, ht, hta⟩ := hnested.exists_covers a f kept h
        have hat : association.covers t = true := hnested.base_covers _ hnestedBase t ht
        exact ⟨association, hassociation, FieldPath.covers_trans hat hta⟩
      · cases h
  isMinimal_kept a f kept h := by
    rcases List.mem_append.mp h with h | h
    · exact hp.isMinimal_kept a f kept h
    · rcases mem_joinStages h with h | h | h
      · cases h
        exact isMinimal_keptBelow nested association
      · exact hnested.isMinimal_kept a f kept h
      · cases h
  no_project paths h := by
    rcases List.mem_append.mp h with h | h
    · exact hp.no_project paths h
    · rcases mem_joinStages h with h | h | h
      · cases h
      · exact hnested.no_project paths h
      · cases h

/-- Reading keeps the joins of a plan well joined. -/
theorem Grows.wellJoined (h : Grows o p q) (hp : WellJoined p) : WellJoined q := by
  induction h with
  | refl => exact hp
  | join _ hpath hnested ih ihnested =>
    refine (ih hp).join ?_ (ihnested (wellJoined_start _)) hnested.base?_eq _ _
    intro base hbase
    rw [hbase] at hpath
    exact Node.base_covers_of_fieldPath hpath
  | _ =>
    -- No other change touches the base, the associations or the joins.
    rename_i ih
    exact ⟨(ih hp).base_covers, (ih hp).exists_covers, (ih hp).isMinimal_kept, (ih hp).no_project⟩

end Plan

end EntityQuery
