import EntityQuery.Proofs.FieldPath.Below

/-!
# Member paths

A member path has slashes between its segments, a dotted path has dots. Main statements: a member
path can be read exactly if each of its pieces is a segment, and writing what was read gives it
back. Every path that is made of paths that were read could have been read itself, and no two
paths have one dotted form.
-/

namespace EntityQuery

namespace Text

/-- No piece between separators has a separator in it. -/
theorem not_mem_of_mem_split {separator : Char} {cs piece : List Char}
    (h : piece ∈ split separator cs) : separator ∉ piece := by
  induction cs generalizing piece with
  | nil => rw [List.mem_singleton.mp h]; exact List.not_mem_nil
  | cons c cs ih =>
    rw [split] at h
    by_cases hc : c = separator
    · rw [if_pos hc] at h
      rcases List.mem_cons.mp h with rfl | h
      · exact List.not_mem_nil
      · exact ih h
    · rw [if_neg hc] at h
      obtain ⟨first, pieces, hsplit⟩ := List.exists_cons_of_ne_nil (split_ne_nil separator cs)
      rw [hsplit] at h
      rcases List.mem_cons.mp h with rfl | h
      · have hfirst : separator ∉ first := ih (hsplit ▸ List.mem_cons_self)
        rw [List.mem_cons, not_or]
        exact ⟨Ne.symm hc, hfirst⟩
      · exact ih (hsplit ▸ List.mem_cons_of_mem _ h)

end Text

/-- A path that can be read: between its slashes there is nothing but segments. -/
def IsMemberPath (name : String) : Prop :=
  ∀ piece ∈ Text.split '/' name.toList, FieldPath.IsSegment (String.ofList piece)

instance (name : String) : Decidable (IsMemberPath name) :=
  inferInstanceAs (Decidable (∀ piece ∈ Text.split '/' name.toList, _))

namespace FieldPath

variable {name : String} {p q r : FieldPath}

/-! ## Reading -/

/-- Whatever is read has the pieces of the text as its segments. -/
theorem ofMemberPath_eq_ok_iff :
    ofMemberPath name = .ok p ↔ p.segments.map String.toList = Text.split '/' name.toList := by
  have hsegments : p.segments.map String.toList = Text.split '/' name.toList ↔
      p.segments = (Text.split '/' name.toList).map String.ofList := by
    constructor
    · intro h
      simp [← h, Function.comp_def]
    · intro h
      simp [h, Function.comp_def]
  rw [hsegments]
  unfold ofMemberPath
  by_cases hempty : name.toList = []
  · rw [if_pos hempty, hempty]
    -- The only piece of the empty path is empty, so it is no segment.
    refine ⟨nofun, fun h => absurd (p.isSegment "" ?_) (by decide +kernel)⟩
    rw [h]
    exact List.mem_singleton_self _
  · rw [if_neg hempty]
    dsimp only
    split
    · rename_i fault hfault
      refine ⟨nofun, fun h => ?_⟩
      obtain ⟨s, hs, hfault⟩ := List.exists_of_findSome?_eq_some hfault
      rw [segmentFault?_eq_none_iff.mpr (p.isSegment s (h ▸ hs))] at hfault
      cases hfault
    · constructor
      · intro h
        cases h
        rfl
      · intro h
        rw [Except.ok.injEq]
        exact ext_segments h.symm

theorem exists_ofMemberPath_iff : (∃ p, ofMemberPath name = .ok p) ↔ IsMemberPath name := by
  simp only [ofMemberPath_eq_ok_iff]
  constructor
  · rintro ⟨p, hp⟩ piece hpiece
    obtain ⟨s, hs, rfl⟩ := List.mem_map.mp (hp ▸ hpiece)
    rw [String.ofList_toList]
    exact p.isSegment s hs
  · intro h
    have hsegments : ∀ s ∈ (Text.split '/' name.toList).map String.ofList, IsSegment s := by
      intro s hs
      obtain ⟨piece, hpiece, rfl⟩ := List.mem_map.mp hs
      exact h piece hpiece
    exact ⟨⟨_, by simp [Text.split_ne_nil], hsegments⟩, by simp [Function.comp_def]⟩

/-! ## Writing -/

/-- The segments with slashes between them. -/
def memberPath (p : FieldPath) : String :=
  String.ofList (Text.join '/' (p.segments.map String.toList))

/-- Writing what was read gives the text back. -/
theorem memberPath_of_ofMemberPath (h : ofMemberPath name = .ok p) : p.memberPath = name := by
  rw [memberPath, ofMemberPath_eq_ok_iff.mp h, Text.join_split, String.ofList_toList]

/-- A path without slashes in its segments is read from what is written. -/
theorem ofMemberPath_memberPath (h : ∀ s ∈ p.segments, '/' ∉ s.toList) :
    ofMemberPath p.memberPath = .ok p := by
  have hne : p.segments.map String.toList ≠ [] := by simp [p.ne_nil]
  rw [ofMemberPath_eq_ok_iff, memberPath, String.toList_ofList, Text.split_join hne]
  simpa using h

theorem reference_injective (h : p.reference = q.reference) : p = q := by
  rw [reference, reference, ← String.toList_inj, String.toList_append, String.toList_append] at h
  exact dotted_injective (String.toList_inj.mp (List.append_cancel_left h))

/-! ## Paths that arise -/

/-- The paths that are read, and those made of them by taking one below another or by taking what is
left of one below another. -/
inductive Arises : FieldPath → Prop
  | read {name : String} {p : FieldPath} (h : ofMemberPath name = .ok p) : Arises p
  | append {p q : FieldPath} (hp : Arises p) (hq : Arises q) : Arises (p ++ q)
  | rest {p q r : FieldPath} (hq : Arises q) (hp : Arises p) (h : q.below? p = some r) : Arises r

/-- A path that is read has no slash in its segments, and what is made of such paths has none. -/
theorem Arises.slash_not_mem (h : Arises p) : ∀ s ∈ p.segments, '/' ∉ s.toList := by
  induction h with
  | read h =>
    intro s hs
    apply Text.not_mem_of_mem_split
    rw [← ofMemberPath_eq_ok_iff.mp h]
    exact List.mem_map_of_mem hs
  | append _ _ ihp ihq =>
    intro s hs
    rcases List.mem_append.mp hs with hs | hs
    · exact ihp s hs
    · exact ihq s hs
  | rest _ _ h ihq _ =>
    intro s hs
    rw [below?_eq_some_iff.mp h] at ihq
    exact ihq s (List.mem_append_right _ hs)

/-- **Member paths are read exactly, and dotted paths are unambiguous.** A text is read exactly if
every piece between its slashes can stand between dots, and with slashes between them the segments
give the text back. Every path that arises could have been read, so its segments are such pieces.
There is a first and a last one; the dotted form splits at its dots into the segments, so it and
the reference tell the path, and it is not taken for an operator. What is left of a path below
another one is what was taken below that one. -/
theorem member_paths_and_dotted_paths (name : String) (p q r : FieldPath) :
    ((∃ p, ofMemberPath name = .ok p) ↔
        ∀ piece ∈ Text.split '/' name.toList,
          piece ≠ [] ∧ piece.head? ≠ some '$' ∧ '.' ∉ piece) ∧
      (ofMemberPath name = .ok p → p.segments.map String.toList = Text.split '/' name.toList ∧
        String.ofList (Text.join '/' (p.segments.map String.toList)) = name) ∧
      (Arises p ↔ ∃ name, ofMemberPath name = .ok p) ∧
      (p.segments ≠ [] ∧ ∀ s ∈ p.segments,
        s.toList ≠ [] ∧ s.toList.head? ≠ some '$' ∧ '.' ∉ s.toList) ∧
      p.segments.head? = some p.first ∧ p.segments.getLast? = some p.last ∧
      (Text.split '.' p.dotted.toList).map String.ofList = p.segments ∧
      (p.dotted = q.dotted → p = q) ∧ (p.reference = q.reference → p = q) ∧
      p.dotted.toList.head? ≠ some '$' ∧
      p ++ q ++ r = p ++ (q ++ r) ∧ (p ++ q).below? p = some q ∧
      (q.below? p = some r ↔ q = p ++ r) := by
  refine ⟨?_, fun h => ⟨ofMemberPath_eq_ok_iff.mp h, memberPath_of_ofMemberPath h⟩, ?_,
    ⟨p.ne_nil, p.isSegment⟩, List.head?_eq_some_head p.ne_nil,
    List.getLast?_eq_some_getLast p.ne_nil, pieces_dotted p, dotted_injective,
    reference_injective, ?_, append_assoc p q r, below?_eq_some_iff.mpr rfl,
    below?_eq_some_iff⟩
  · rw [exists_ofMemberPath_iff]
    simp only [IsMemberPath, IsSegment, String.toList_ofList]
  · constructor
    · intro h
      exact ⟨p.memberPath, ofMemberPath_memberPath h.slash_not_mem⟩
    · rintro ⟨name, h⟩
      exact .read h
  · have hkey : isOperatorKey p.dotted = false := isOperatorKey_dotted p
    simpa [isOperatorKey] using hkey

end FieldPath

end EntityQuery
