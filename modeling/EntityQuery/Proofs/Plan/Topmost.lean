import Mathlib.Data.List.Perm.Basic
import EntityQuery.Proofs.Plan.AddNew
import EntityQuery.Proofs.Plan.Selection

/-!
# What is left of the paths that are added

Paths are added to a selection one by one, and each may be dropped or may push out others that
came before. Main statement: in the end the topmost of them are left, each once, in the order in
which they came first.
-/

namespace EntityQuery

namespace Selection

/-- Of all paths, only the path itself covers it. -/
def IsTopmost (paths : List FieldPath) (p : FieldPath) : Prop :=
  ∀ q ∈ paths, q.covers p = true → q = p

instance (paths : List FieldPath) (p : FieldPath) : Decidable (IsTopmost paths p) :=
  inferInstanceAs (Decidable (∀ q ∈ paths, _))

/-- The topmost of some paths, each where it comes first. -/
def topmost (paths : List FieldPath) : Selection :=
  paths.eraseDups.filter fun p => IsTopmost paths p

theorem mem_topmost {paths : List FieldPath} {p : FieldPath} :
    p ∈ topmost paths ↔ p ∈ paths ∧ IsTopmost paths p := by
  rw [topmost, List.mem_filter, List.mem_eraseDups, decide_eq_true_iff]

theorem isTopmost_concat {paths : List FieldPath} {p q : FieldPath} :
    IsTopmost (paths ++ [p]) q ↔ IsTopmost paths q ∧ (p.covers q = true → p = q) := by
  simp only [IsTopmost, List.mem_append, List.mem_singleton, or_imp, forall_and, forall_eq]

/-- A path below one that is there changes nothing. -/
theorem topmost_concat_of_covered {paths : List FieldPath} {p : FieldPath}
    (h : ∃ q ∈ paths, q.covers p = true) : topmost (paths ++ [p]) = topmost paths := by
  obtain ⟨q, hq, hqp⟩ := h
  -- A topmost path that the new one covers is also covered by the one above both.
  have hsame (r : FieldPath) : IsTopmost (paths ++ [p]) r ↔ IsTopmost paths r := by
    rw [isTopmost_concat, and_iff_left_iff_imp]
    intro hr hpr
    have hqr : q = r := hr q hq (FieldPath.covers_trans hqp hpr)
    exact FieldPath.covers_antisymm hpr (hqr ▸ hqp)
  unfold topmost
  simp only [hsame, eraseDups_concat, addNew, List.mem_eraseDups]
  by_cases hp : p ∈ paths
  · rw [if_pos hp]
  · have hnot : ¬IsTopmost paths p := fun htop => hp (htop q hq hqp ▸ hq)
    rw [if_neg hp, List.filter_append]
    simp [hnot]

/-- A path that none is above comes last, and those below it go. -/
theorem topmost_concat_of_uncovered {paths : List FieldPath} {p : FieldPath}
    (h : ∀ q ∈ paths, q.covers p = false) :
    topmost (paths ++ [p]) = (topmost paths).filter (fun q => !p.covers q) ++ [p] := by
  have hp : p ∉ paths := by
    intro hp
    have hcovers := h p hp
    rw [FieldPath.covers_refl] at hcovers
    cases hcovers
  -- Nothing covers the new path, and it takes away what it covers.
  have htop : IsTopmost (paths ++ [p]) p := by
    refine isTopmost_concat.mpr ⟨fun q hq hqp => ?_, fun _ => rfl⟩
    rw [h q hq] at hqp
    cases hqp
  unfold topmost
  rw [eraseDups_concat, addNew, if_neg (by rwa [List.mem_eraseDups]), List.filter_append,
    List.filter_filter]
  congr 1
  · apply List.filter_congr
    intro q hq
    have hpq : p ≠ q := fun heq => hp (List.mem_eraseDups.mp (heq ▸ hq))
    simp [isTopmost_concat, hpq, and_comm]
  · simp [htop]

theorem foldl_add_eq_topmost (paths : List FieldPath) :
    paths.foldl Selection.add [] = topmost paths := by
  induction paths using List.reverseRecOn with
  | nil => rfl
  | append_singleton paths p ih =>
    have hcovered : (topmost paths).covers p = true ↔ ∃ q ∈ paths, q.covers p = true := by
      rw [← ih, covers_foldl_add]
      simp [covers]
    rw [List.foldl_append, ih]
    show (topmost paths).add p = _
    unfold add
    by_cases h : ∃ q ∈ paths, q.covers p = true
    · rw [if_pos (hcovered.mpr h), topmost_concat_of_covered h]
    · have hnone : ∀ q ∈ paths, q.covers p = false := by simpa using h
      rw [if_neg (mt hcovered.mp h), topmost_concat_of_uncovered hnone]

theorem nodup_topmost (paths : List FieldPath) : (topmost paths).Nodup :=
  (nodup_eraseDups paths).filter _

/-- Only which paths there are decides which of them are topmost. -/
theorem topmost_perm {paths paths' : List FieldPath} (h : ∀ p, p ∈ paths' ↔ p ∈ paths) :
    (topmost paths').Perm (topmost paths) := by
  rw [List.perm_ext_iff_of_nodup (nodup_topmost _) (nodup_topmost _)]
  intro p
  simp only [mem_topmost, IsTopmost, h]

/-- A selection loses nothing when its own paths are added again. -/
theorem foldl_add_of_subset {s : Selection} {paths : List FieldPath} (h : paths ⊆ s) :
    paths.foldl Selection.add s = s := by
  induction paths with
  | nil => rfl
  | cons p paths ih =>
    have hp : s.covers p = true :=
      covers_iff.mpr ⟨p, h List.mem_cons_self, FieldPath.covers_refl p⟩
    rw [List.foldl_cons, add, if_pos hp]
    exact ih fun q hq => h (List.mem_cons_of_mem _ hq)

/-- A second time all paths are topmost. -/
theorem topmost_topmost (paths : List FieldPath) : topmost (topmost paths) = topmost paths := by
  have htop : ∀ p ∈ topmost paths, IsTopmost (topmost paths) p := by
    intro p hp q hq
    exact (mem_topmost.mp hp).2 q (mem_topmost.mp hq).1
  conv_lhs => rw [topmost, eraseDups_of_nodup (nodup_topmost paths)]
  exact List.filter_eq_self.mpr fun p hp => decide_eq_true (htop p hp)

/-- **The topmost paths are left.** Adding paths to an empty selection leaves those of them that no
other one covers, in the order in which they came first. So none of the paths that are left covers
another, they cover what the added paths cover, the order of adding has no say in which paths are
left, and adding what is left changes nothing, be it to the selection or to an empty one. -/
theorem topmost_paths_are_left (paths : List FieldPath) :
    let left : Selection := paths.foldl Selection.add []
    left = paths.eraseDups.filter (fun p => ∀ q ∈ paths, q.covers p = true → q = p) ∧
      left.Pairwise (fun p q => p.covers q = false ∧ q.covers p = false) ∧
      (∀ p, left.covers p = true ↔ ∃ q ∈ paths, q.covers p = true) ∧
      (∀ paths' : List FieldPath, (∀ p, p ∈ paths' ↔ p ∈ paths) →
        (paths'.foldl Selection.add []).Perm left) ∧
      left.foldl Selection.add left = left ∧ left.foldl Selection.add [] = left := by
  intro left
  have hleft : left = topmost paths := foldl_add_eq_topmost paths
  have hminimal : left.IsMinimal := isMinimal_foldl_add isMinimal_nil paths
  refine ⟨hleft, hminimal.imp fun h => ?_, fun p => ?_, fun paths' h => ?_, ?_, ?_⟩
  · simpa [FieldPath.meets] using h
  · rw [covers_foldl_add]
    simp [covers]
  · rw [hleft, foldl_add_eq_topmost]
    exact topmost_perm h
  · exact foldl_add_of_subset (List.Subset.refl left)
  · rw [hleft, foldl_add_eq_topmost, topmost_topmost]

end Selection

end EntityQuery
