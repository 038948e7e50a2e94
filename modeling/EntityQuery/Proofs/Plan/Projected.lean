import Mathlib.Data.List.Nodup
import Mathlib.Data.List.Pairwise
import EntityQuery.Proofs.Document.Entries
import EntityQuery.Proofs.Plan.AddNew
import EntityQuery.Proofs.Plan.Joins

/-!
# What a projection names

A projection is a document whose keys are dotted paths. The document store refuses one that names a
field together with a field below it. Whether a document is such a one can be seen from its paths.
-/

namespace EntityQuery

open FieldPath (pieces)

namespace Document

/-- No key of the document names a field that another key names, or one below it. -/
def CollisionFree (d : Document) : Prop :=
  d.keys.Pairwise fun k l => ¬ pieces k <+: pieces l ∧ ¬ pieces l <+: pieces k

instance (d : Document) : Decidable d.CollisionFree :=
  inferInstanceAs (Decidable (List.Pairwise _ _))

/-- Some key of the document names the field, one above it, or one below it. -/
def NamesAround (d : Document) (name : String) : Prop :=
  ∃ k ∈ d.keys, pieces k <+: pieces name ∨ pieces name <+: pieces k

instance (d : Document) (name : String) : Decidable (d.NamesAround name) :=
  inferInstanceAs (Decidable (∃ k ∈ d.keys, _))

end Document

/-! ## Documents of distinct paths -/

/-- The document has an entry for each of the fields, in their order, and no two of these have one
name. -/
structure Document.Lists (d : Document) (fields : List (FieldPath × Value)) : Prop where
  entries_eq : d.entries = fields.map fun field => (field.1.dotted, field.2)
  nodup_keys : d.keys.Nodup

/-- Distinct paths have distinct names, so none is written over another. -/
theorem Document.lists_ofEntries (fields : List (FieldPath × Value))
    (h : (fields.map Prod.fst).Nodup) :
    (ofEntries (fields.map fun field => (field.1.dotted, field.2))).Lists fields := by
  have hnames : (fields.map fun field => (field.1.dotted, field.2)).map Prod.fst =
      (fields.map Prod.fst).map FieldPath.dotted := by
    simp [Function.comp_def]
  have hnodup : ((fields.map fun field => (field.1.dotted, field.2)).map Prod.fst).Nodup := by
    rw [hnames]
    exact h.map fun _ _ => FieldPath.dotted_injective
  refine ⟨entries_ofEntries hnodup, ?_⟩
  rw [keys, entries_ofEntries hnodup]
  exact hnodup

theorem lists_sortDocument {keys : List SortKey} (h : (keys.map Prod.fst).Nodup) :
    (sortDocument keys).Lists (keys.map fun key => (key.1, .int key.2.sign)) := by
  have hlists := Document.lists_ofEntries (keys.map fun key => (key.1, Value.int key.2.sign))
    (by rwa [List.map_map])
  rwa [List.map_map] at hlists

theorem lists_projectionDocument {paths : List FieldPath} (h : paths.Nodup) :
    (projectionDocument paths).Lists (paths.map fun path => (path, .int 1)) := by
  have hlists := Document.lists_ofEntries (paths.map fun path => (path, Value.int 1))
    (by simpa [Function.comp_def] using h)
  rwa [List.map_map] at hlists

theorem entries_projectionDocument {paths : List FieldPath} (h : paths.Nodup) :
    (projectionDocument paths).entries = paths.map fun p => (p.dotted, .int 1) := by
  rw [(lists_projectionDocument h).entries_eq, List.map_map]
  rfl

theorem keys_projectionDocument {paths : List FieldPath} (h : paths.Nodup) :
    (projectionDocument paths).keys = paths.map FieldPath.dotted := by
  rw [Document.keys, entries_projectionDocument h, List.map_map]
  rfl

theorem collisionFree_projectionDocument {paths : List FieldPath} (h : paths.Nodup) :
    (projectionDocument paths).CollisionFree ↔ Selection.IsMinimal paths := by
  rw [Document.CollisionFree, keys_projectionDocument h, List.pairwise_map]
  simp only [FieldPath.pieces_dotted, Selection.IsMinimal, FieldPath.meets_eq_false_iff]

theorem namesAround_projectionDocument {paths : List FieldPath} (h : paths.Nodup)
    (p : FieldPath) :
    (projectionDocument paths).NamesAround p.dotted ↔ Selection.overlaps paths p = true := by
  rw [Document.NamesAround, keys_projectionDocument h, Selection.overlaps_iff]
  simp only [List.mem_map, exists_exists_and_eq_and, FieldPath.pieces_dotted, FieldPath.meets_iff,
    FieldPath.covers_iff]

namespace Selection

theorem IsMinimal.nodup {s : Selection} (h : s.IsMinimal) : s.Nodup := by
  refine List.Pairwise.imp ?_ h
  rintro p _ hp rfl
  rw [FieldPath.meets_refl] at hp
  cases hp

theorem IsMinimal.collisionFree {s : Selection} (h : s.IsMinimal) :
    (projectionDocument s).CollisionFree :=
  (collisionFree_projectionDocument h.nodup).mpr h

end Selection

/-! ## The last projection -/

namespace Plan

variable {p : Plan}

theorem mem_projected {a : FieldPath} :
    a ∈ p.projected ↔ a ∈ p.selection ∨ a ∈ p.expanded ∧ p.selection.overlaps a = false := by
  rw [projected, mem_foldl_addNew, List.mem_filter]
  simp

theorem nodup_projected (h : p.selection.IsMinimal) : p.projected.Nodup :=
  nodup_foldl_addNew h.nodup _

/-- The last projection is minimal unless it gets two associations on one line. The paths that are
selected meet none of the associations that are added to them. -/
theorem isMinimal_projected_iff (h : p.selection.IsMinimal) :
    Selection.IsMinimal p.projected ↔
      ∀ a ∈ p.expanded, ∀ b ∈ p.expanded, p.selection.overlaps a = false →
        p.selection.overlaps b = false → a ≠ b → a.meets b = false := by
  have hsymm : Std.Symm fun q r : FieldPath => q.meets r = false :=
    ⟨fun q r hqr => by rwa [FieldPath.meets_comm]⟩
  constructor
  · intro hminimal a ha b hb hsa hsb hne
    have ha' : a ∈ p.projected := mem_projected.mpr (Or.inr ⟨ha, hsa⟩)
    have hb' : b ∈ p.projected := mem_projected.mpr (Or.inr ⟨hb, hsb⟩)
    exact List.Pairwise.forall hminimal ha' hb' hne
  · intro hadded
    apply (nodup_projected h).pairwise_of_forall_ne
    intro a ha b hb hne
    -- Only two added associations can meet.
    rcases mem_projected.mp ha with ha | ⟨ha, hsa⟩
    · rcases mem_projected.mp hb with hb | ⟨hb, hsb⟩
      · exact List.Pairwise.forall h ha hb hne
      · exact Selection.overlaps_eq_false_iff.mp hsb a ha
    · rcases mem_projected.mp hb with hb | ⟨hb, hsb⟩
      · rw [FieldPath.meets_comm]
        exact Selection.overlaps_eq_false_iff.mp hsa b hb
      · exact hadded a ha b hb hsa hsb hne

/-- What meets the last projection: the line of a selected path, and that of an association which
is added to these. -/
theorem overlaps_projected_iff {a : FieldPath} :
    Selection.overlaps p.projected a = true ↔
      p.selection.overlaps a = true ∨
        ∃ t ∈ p.expanded, p.selection.overlaps t = false ∧ t.meets a = true := by
  simp only [Selection.overlaps_iff, mem_projected]
  constructor
  · rintro ⟨q, hq | ⟨hq, hsq⟩, hqa⟩
    · exact Or.inl ⟨q, hq, hqa⟩
    · exact Or.inr ⟨q, hq, hsq, hqa⟩
  · rintro (⟨q, hq, hqa⟩ | ⟨q, hq, hsq, hqa⟩)
    · exact ⟨q, Or.inl hq, hqa⟩
    · exact ⟨q, Or.inr ⟨hq, hsq⟩, hqa⟩

/-! ## Projections and joins in the pipeline -/

/-- A pipeline projects only at its end, and only if something is selected. -/
theorem eq_projected_of_mem_pipeline (h : WellJoined p) {paths : List FieldPath}
    (hpaths : .project paths ∈ p.pipeline) : paths = p.projected := by
  rcases mem_pipeline hpaths with hjoin | hproject | hplain
  · exact absurd hjoin (h.no_project paths)
  · unfold projectStage at hproject
    split at hproject
    · cases hproject
    · cases List.mem_singleton.mp hproject
      rfl
  · cases hplain

theorem mem_joins_of_mem_pipeline {a : FieldPath} {f : String} {kept : List FieldPath}
    (h : .lookup a f kept ∈ p.pipeline) : .lookup a f kept ∈ p.joins := by
  rcases mem_pipeline h with hjoin | hproject | hplain
  · exact hjoin
  · unfold projectStage at hproject
    split at hproject
    · cases hproject
    · cases List.mem_singleton.mp hproject
  · cases hplain

end Plan

end EntityQuery
