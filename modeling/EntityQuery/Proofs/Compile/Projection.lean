import EntityQuery.Proofs.Compile.Root
import EntityQuery.Proofs.Plan.Projected

/-!
# The projections of a query

A selection, and what a join keeps of its records, never name a field twice. The last projection of
a pipeline can, because associations are added to it that lie one below the other. It keeps every
association of the root, but a join below such an association only as far as the selection does not
go past it.
-/

namespace EntityQuery

/-- The association that a stage joins. -/
def Stage.joined? : Stage → Option FieldPath
  | .lookup association .. => some association
  | _ => none

/-- The paths of a projection stage. -/
def Stage.projected? : Stage → Option (List FieldPath)
  | .project paths => some paths
  | _ => none

namespace Compile

variable {o : Options} {root? : Option Node} {q : FindQuery} {stages : List Stage}

theorem isMinimal_selection_of_plan {p : Plan} (h : plan o root? = .ok p) :
    p.selection.IsMinimal := by
  rw [Outcome.eq_plan_of_result h]
  exact (Plan.grows_readRoot root? _).isMinimal_selection Selection.isMinimal_nil

theorem wellJoined_of_plan {p : Plan} (h : plan o root? = .ok p) : p.WellJoined := by
  rw [Outcome.eq_plan_of_result h]
  exact (Plan.grows_readRoot root? _).wellJoined (Plan.wellJoined_start none)

/-- The fields that the projection of a pipeline names. -/
def projectionKeys? (r : Except CompileError (List Stage)) : Option (List String) :=
  (r.toOption.bind fun stages => stages.findSome? Stage.projected?).map fun paths =>
    (projectionDocument paths).keys

theorem exists_project {r : Except CompileError (List Stage)} {keys : List String}
    (h : projectionKeys? r = some keys) :
    ∃ stages paths, r = .ok stages ∧ .project paths ∈ stages ∧
      (projectionDocument paths).keys = keys := by
  obtain ⟨paths, hpaths, hkeys⟩ := Option.map_eq_some_iff.mp h
  obtain ⟨stages, hstages, hfound⟩ := Option.bind_eq_some_iff.mp hpaths
  obtain ⟨s, hs, hprojected⟩ := List.exists_of_findSome?_eq_some hfound
  refine ⟨stages, paths, ?_, ?_, hkeys⟩
  · cases r with
    | error => cases hstages
    | ok => exact congrArg Except.ok (Option.some.inj hstages)
  · cases s with
    | project =>
      cases hprojected
      exact hs
    | _ => cases hprojected

theorem exists_lookup {r : Except CompileError (List Stage)} {associations : List FieldPath}
    (h : r.toOption.map (fun stages => stages.filterMap Stage.joined?) = some associations)
    (hr : r = .ok stages) {a : FieldPath} (ha : a ∈ associations) :
    ∃ f kept, .lookup a f kept ∈ stages := by
  rw [hr] at h
  rw [← Option.some.inj h] at ha
  obtain ⟨s, hs, hjoined⟩ := List.mem_filterMap.mp ha
  cases s with
  | lookup =>
    cases hjoined
    exact ⟨_, _, hs⟩
  | _ => cases hjoined

/-! ## Collisions -/

/-- **Selections and joins never collide, and the last projection collides exactly when two
associations do** that are joined at the root and of which neither is on the line of a selected
path. -/
theorem collisionFree_projections (hq : find o root? = .ok q)
    (hs : pipeline o root? = .ok stages) :
    (projectionDocument q.selection).CollisionFree ∧
      (∀ a f kept, .lookup a f kept ∈ stages → (projectionDocument kept).CollisionFree) ∧
        ∀ paths, .project paths ∈ stages →
          ((projectionDocument paths).CollisionFree ↔
            ∀ a ∈ associations root?, ∀ b ∈ associations root?, q.selection.overlaps a = false →
              q.selection.overlaps b = false → a ≠ b → a.meets b = false) := by
  obtain ⟨p, hp, rfl, rfl⟩ := exists_plan hq hs
  have hselection : p.selection.IsMinimal := isMinimal_selection_of_plan hp
  have hjoined : p.WellJoined := wellJoined_of_plan hp
  refine ⟨hselection.collisionFree, ?_, ?_⟩
  · intro a f kept hlookup
    exact (hjoined.isMinimal_kept a f kept (Plan.mem_joins_of_mem_pipeline hlookup)).collisionFree
  · intro paths hpaths
    rw [Plan.eq_projected_of_mem_pipeline hjoined hpaths,
      collisionFree_projectionDocument (Plan.nodup_projected hselection),
      Plan.isMinimal_projected_iff hselection, (ends_of_plan hp).1]
    rfl

/-- Two associations side by side, one of them with a selection of its own. -/
theorem collisionFree_projections_side_by_side :
    let inner : Node := .options
      ⟨none, none, some (.orderBy [.identifier "Rank"]), some (.select [.identifier "Title"]), none,
        none, none⟩
    let root : Node := .options
      ⟨none, none, none, some (.select [.identifier "Name", .identifier "Address/City"]), none,
        none, some (.expand [⟨.identifier "Orders", some inner⟩, ⟨.identifier "Manager", none⟩])⟩
    ∃ q stages paths, find {} (some root) = .ok q ∧ pipeline {} (some root) = .ok stages ∧
      .project paths ∈ stages ∧
      (projectionDocument paths).keys = ["Name", "Address.City", "Orders", "Manager"] ∧
      (projectionDocument q.selection).CollisionFree ∧
      (∀ a f kept, .lookup a f kept ∈ stages → (projectionDocument kept).CollisionFree) ∧
      (projectionDocument paths).CollisionFree := by
  intro inner root
  have hkeys : projectionKeys? (pipeline {} (some root)) =
      some ["Name", "Address.City", "Orders", "Manager"] := by
    decide +kernel
  have hfind : (find {} (some root)).isOk = true := by decide +kernel
  have hapart : ∀ a ∈ associations (some root), ∀ b ∈ associations (some root), a ≠ b →
      a.meets b = false := by
    decide +kernel
  obtain ⟨stages, paths, hstages, hpaths, hpathKeys⟩ := exists_project hkeys
  cases hq : find {} (some root) with
  | error =>
    rw [hq] at hfind
    cases hfind
  | ok q =>
    have hfree := collisionFree_projections hq hstages
    refine ⟨q, stages, paths, rfl, hstages, hpaths, hpathKeys, hfree.1, hfree.2.1, ?_⟩
    exact (hfree.2.2 paths hpaths).mpr fun a ha b hb _ _ hne => hapart a ha b hb hne

/-- Two associations one below the other are both added, and MongoDB refuses the projection. -/
theorem collision_of_nested_associations :
    let root : Node := .options
      ⟨none, none, none, some (.select [.identifier "Name"]), none, none,
        some (.expand [⟨.identifier "A", none⟩, ⟨.identifier "A/B", none⟩])⟩
    ∃ stages paths, pipeline {} (some root) = .ok stages ∧ .project paths ∈ stages ∧
      (projectionDocument paths).keys = ["Name", "A", "A.B"] ∧
      ¬(projectionDocument paths).CollisionFree := by
  intro root
  have hkeys : projectionKeys? (pipeline {} (some root)) = some ["Name", "A", "A.B"] := by
    decide +kernel
  obtain ⟨stages, paths, hstages, hpaths, hpathKeys⟩ := exists_project hkeys
  refine ⟨stages, paths, hstages, hpaths, hpathKeys, ?_⟩
  rw [Document.CollisionFree, hpathKeys]
  decide +kernel

/-! ## Joins that survive -/

/-- **Every join lies at an association of the root or below it, and the last projection keeps
it** if it is such an association itself, or if the selection does not go past that association.
Otherwise it is kept exactly if a selected path is on its line, or an association that is added to
the selected paths. -/
theorem namesAround_lookup_iff (hq : find o root? = .ok q) (hs : pipeline o root? = .ok stages)
    {paths : List FieldPath} (hpaths : .project paths ∈ stages) {a : FieldPath} {f : String}
    {kept : List FieldPath} (hlookup : .lookup a f kept ∈ stages) :
    (∃ t ∈ associations root?, t.covers a = true) ∧
      (a ∈ associations root? → (projectionDocument paths).NamesAround a.dotted) ∧
      (∀ t ∈ associations root?, t.covers a = true →
        (∀ s ∈ q.selection, t.covers s = true → s = t) →
          (projectionDocument paths).NamesAround a.dotted) ∧
      ((projectionDocument paths).NamesAround a.dotted ↔
        q.selection.overlaps a = true ∨
          ∃ t ∈ associations root?, q.selection.overlaps t = false ∧ t.meets a = true) := by
  obtain ⟨p, hp, rfl, rfl⟩ := exists_plan hq hs
  have hjoined : p.WellJoined := wellJoined_of_plan hp
  have hnodup : p.projected.Nodup := Plan.nodup_projected (isMinimal_selection_of_plan hp)
  have hjoin := Plan.mem_joins_of_mem_pipeline hlookup
  -- The projection is the one of the plan, and the associations of the root are those expanded.
  rw [Plan.eq_projected_of_mem_pipeline hjoined hpaths, namesAround_projectionDocument hnodup,
    Plan.overlaps_projected_iff, ← (ends_of_plan hp).1]
  refine ⟨hjoined.exists_covers a f kept hjoin, ?_, ?_, Iff.rfl⟩
  · -- An association is on the line of a selected path, or else it is added.
    intro ha
    by_cases hsa : p.selection.overlaps a = true
    · exact Or.inl hsa
    · exact Or.inr ⟨a, ha, by simpa using hsa, a.meets_refl⟩
  · intro t ht hta hpast
    by_cases hst : p.selection.overlaps t = true
    · -- A selected path on the line of `t` is `t` or above it, so it is above the join as well.
      obtain ⟨s, hs, hmeets⟩ := Selection.overlaps_iff.mp hst
      have hsa : s.covers a = true := by
        rcases FieldPath.meets_iff.mp hmeets with hst | hts
        · exact FieldPath.covers_trans hst hta
        · rw [hpast s hs hts]
          exact hta
      exact Or.inl (Selection.overlaps_iff.mpr ⟨s, hs, FieldPath.meets_iff.mpr (Or.inl hsa)⟩)
    · exact Or.inr ⟨t, ht, by simpa using hst, FieldPath.meets_iff.mpr (Or.inl hta)⟩

/-- A join below an association that is added to the selection. -/
theorem namesAround_lookup_below_added :
    let root : Node := .options
      ⟨none, none, none, some (.select [.identifier "Name"]), none, none,
        some (.expand [⟨.identifier "A", some (.options
          ⟨none, none, none, none, none, none, some (.expand [⟨.identifier "B", none⟩])⟩)⟩])⟩
    let name : FieldPath := ⟨["Name"], by decide, by decide +kernel⟩
    let ab : FieldPath := ⟨["A", "B"], by decide, by decide +kernel⟩
    ∃ q stages paths f kept, find {} (some root) = .ok q ∧ q.selection = [name] ∧
      pipeline {} (some root) = .ok stages ∧ .project paths ∈ stages ∧
      .lookup ab f kept ∈ stages ∧ (projectionDocument paths).NamesAround ab.dotted := by
  intro root name ab
  let a : FieldPath := ⟨["A"], by decide, by decide +kernel⟩
  have hfind : (find {} (some root)).toOption.map FindQuery.selection = some [name] := by
    decide +kernel
  have hkeys : projectionKeys? (pipeline {} (some root)) = some ["Name", "A"] := by
    decide +kernel
  have hjoins : (pipeline {} (some root)).toOption.map
      (fun stages => stages.filterMap Stage.joined?) = some [a, ab] := by
    decide +kernel
  have ha : a ∈ associations (some root) := by decide +kernel
  obtain ⟨stages, paths, hstages, hpaths, -⟩ := exists_project hkeys
  obtain ⟨f, kept, hlookup⟩ := exists_lookup hjoins hstages (a := ab) (by simp)
  cases hq : find {} (some root) with
  | error =>
    rw [hq] at hfind
    cases hfind
  | ok q =>
    rw [hq] at hfind
    have hselection : q.selection = [name] := Option.some.inj hfind
    refine ⟨q, stages, paths, f, kept, rfl, hselection, hstages, hpaths, hlookup, ?_⟩
    refine (namesAround_lookup_iff hq hstages hpaths hlookup).2.2.1 a ha (by decide +kernel) ?_
    rw [hselection]
    decide +kernel

/-- The selection goes past the association that is joined at the root. The join below it is
computed, and the projection keeps nothing of it. -/
theorem lookup_not_kept_beside_selection :
    let root : Node := .options
      ⟨none, none, none, some (.select [.identifier "A/X"]), none, none,
        some (.expand [⟨.identifier "A", some (.options
          ⟨none, none, none, none, none, none, some (.expand [⟨.identifier "B", none⟩])⟩)⟩])⟩
    let ab : FieldPath := ⟨["A", "B"], by decide, by decide +kernel⟩
    ∃ stages paths f kept, pipeline {} (some root) = .ok stages ∧ .project paths ∈ stages ∧
      (projectionDocument paths).keys = ["A.X"] ∧ .lookup ab f kept ∈ stages ∧
      ¬(projectionDocument paths).NamesAround ab.dotted := by
  intro root ab
  let a : FieldPath := ⟨["A"], by decide, by decide +kernel⟩
  have hkeys : projectionKeys? (pipeline {} (some root)) = some ["A.X"] := by decide +kernel
  have hjoins : (pipeline {} (some root)).toOption.map
      (fun stages => stages.filterMap Stage.joined?) = some [a, ab] := by
    decide +kernel
  obtain ⟨stages, paths, hstages, hpaths, hpathKeys⟩ := exists_project hkeys
  obtain ⟨f, kept, hlookup⟩ := exists_lookup hjoins hstages (a := ab) (by simp)
  refine ⟨stages, paths, f, kept, hstages, hpaths, hpathKeys, hlookup, ?_⟩
  rw [Document.NamesAround, hpathKeys]
  decide +kernel

end Compile

end EntityQuery
