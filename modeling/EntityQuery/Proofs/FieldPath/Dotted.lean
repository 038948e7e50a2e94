import EntityQuery.Document.Value
import EntityQuery.FieldPath

/-!
# Dotted paths

The dotted form of a path can be split at its dots into the segments of the path again, because no
segment is empty or holds a dot. So a path is known by its dotted form, and one path lies below
another exactly when the pieces of their dotted forms say so. No dotted form is taken for an
operator.
-/

namespace EntityQuery

namespace Text

theorem split_of_not_mem {separator : Char} {piece : List Char} (h : separator ∉ piece) :
    split separator piece = [piece] := by
  induction piece with
  | nil => rfl
  | cons c piece ih =>
    have hc := List.ne_of_not_mem_cons h
    have hpiece := List.not_mem_of_not_mem_cons h
    rw [split, if_neg (Ne.symm hc), ih hpiece]

theorem split_append_cons {separator : Char} {piece : List Char} (h : separator ∉ piece)
    (cs : List Char) :
    split separator (piece ++ separator :: cs) = piece :: split separator cs := by
  induction piece with
  | nil => rw [List.nil_append, split, if_pos rfl]
  | cons c piece ih =>
    have hc := List.ne_of_not_mem_cons h
    have hpiece := List.not_mem_of_not_mem_cons h
    rw [List.cons_append, split, if_neg (Ne.symm hc), ih hpiece]

/-- Pieces without a separator in them are found again. -/
theorem split_join {separator : Char} {pieces : List (List Char)} (hne : pieces ≠ [])
    (h : ∀ piece ∈ pieces, separator ∉ piece) :
    split separator (join separator pieces) = pieces := by
  induction pieces with
  | nil => exact absurd rfl hne
  | cons piece pieces ih =>
    have hpiece := h piece List.mem_cons_self
    cases pieces with
    | nil => exact split_of_not_mem hpiece
    | cons next pieces =>
      rw [join, split_append_cons hpiece, ih (List.cons_ne_nil _ _)
        fun p hp => h p (List.mem_cons_of_mem _ hp)]
      exact List.cons_ne_nil _ _

end Text

namespace FieldPath

@[ext] theorem ext_segments {p q : FieldPath} (h : p.segments = q.segments) : p = q := by
  cases p
  cases q
  cases h
  rfl

/-- The pieces of a name between dots. -/
def pieces (name : String) : List String :=
  (Text.split '.' name.toList).map String.ofList

/-- The dotted form of a path splits into its segments. -/
@[simp] theorem pieces_dotted (p : FieldPath) : pieces p.dotted = p.segments := by
  have hne : p.segments.map String.toList ≠ [] := by simp [p.ne_nil]
  have hdot : ∀ piece ∈ p.segments.map String.toList, '.' ∉ piece := by
    intro piece hpiece
    obtain ⟨s, hs, rfl⟩ := List.mem_map.mp hpiece
    exact (p.isSegment s hs).2.2
  rw [pieces, dotted, String.toList_ofList, Text.split_join hne hdot, List.map_map]
  simp [Function.comp_def]

theorem segments_prefix_pieces_dotted (p : FieldPath) : p.segments <+: pieces p.dotted := by
  simp

theorem dotted_injective {p q : FieldPath} (h : p.dotted = q.dotted) : p = q := by
  apply ext_segments
  rw [← pieces_dotted p, h, pieces_dotted]

theorem isOperatorKey_dotted (p : FieldPath) : isOperatorKey p.dotted = false := by
  obtain ⟨segments, hne, hseg⟩ := p
  cases segments with
  | nil => exact absurd rfl hne
  | cons s segments =>
    obtain ⟨hs, hdollar, -⟩ := hseg s List.mem_cons_self
    cases hcs : s.toList with
    | nil => exact absurd hcs hs
    | cons c cs =>
      rw [hcs] at hdollar
      cases segments <;> simpa [isOperatorKey, dotted, Text.join, hcs] using hdollar

end FieldPath

end EntityQuery
