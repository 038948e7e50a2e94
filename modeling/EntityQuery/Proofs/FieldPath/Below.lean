import EntityQuery.Proofs.FieldPath.Covering

/-!
# Paths taken below a path

Everything that is asked of paths has the same answer when all of them are taken below one path: how
they lie to one another, and what is left of one below another. The dotted form of such a path is the
dotted form that it had, behind that of the path above it.
-/

namespace EntityQuery

namespace Text

theorem join_append {separator : Char} {xs ys : List (List Char)} (hx : xs ≠ []) (hy : ys ≠ []) :
    join separator (xs ++ ys) = join separator xs ++ separator :: join separator ys := by
  induction xs with
  | nil => exact absurd rfl hx
  | cons x xs ih =>
    cases xs with
    | nil =>
      obtain ⟨y, ys, rfl⟩ := List.exists_cons_of_ne_nil hy
      rfl
    | cons x' xs =>
      have hjoin := ih (List.cons_ne_nil _ _)
      show x ++ separator :: join separator (x' :: xs ++ ys) =
        (x ++ separator :: join separator (x' :: xs)) ++ separator :: join separator ys
      rw [hjoin, List.append_assoc, List.cons_append]

end Text

namespace FieldPath

variable {p q r : FieldPath}

/-! ## Names -/

/-- The name that a field gets below the path. -/
def nameBelow (p : FieldPath) (name : String) : String :=
  p.dotted ++ "." ++ name

theorem dotted_append (p q : FieldPath) : (p ++ q).dotted = p.nameBelow q.dotted := by
  have hp : p.segments.map String.toList ≠ [] := by simp [p.ne_nil]
  have hq : q.segments.map String.toList ≠ [] := by simp [q.ne_nil]
  rw [nameBelow, dotted, segments_append, List.map_append, Text.join_append hp hq, dotted, dotted]
  simp [← String.toList_inj]

theorem nameBelow_injective {a b : String} (h : p.nameBelow a = p.nameBelow b) : a = b := by
  rw [← String.toList_inj] at h ⊢
  simpa [nameBelow] using h

/-- The name starts with the segments of the path, so it is no operator. -/
theorem isOperatorKey_nameBelow (p : FieldPath) (name : String) :
    isOperatorKey (p.nameBelow name) = false := by
  have hp : isOperatorKey p.dotted = false := p.isOperatorKey_dotted
  unfold isOperatorKey at hp ⊢
  rw [nameBelow]
  cases h : p.dotted.toList with
  | nil => simp [h]
  | cons c cs =>
    rw [h] at hp
    simpa [h] using hp

theorem reference_append (p q : FieldPath) : (p ++ q).reference = "$" ++ p.nameBelow q.dotted := by
  rw [reference, dotted_append]

/-- The last segment stays. -/
@[simp] theorem last_append (p q : FieldPath) : (p ++ q).last = q.last := by
  unfold last
  simp only [segments_append]
  exact List.getLast_append_of_ne_nil _ q.ne_nil

/-! ## Places -/

theorem append_assoc (p q r : FieldPath) : p ++ q ++ r = p ++ (q ++ r) := by
  apply ext_segments
  simp

theorem append_injective (p : FieldPath) : Function.Injective fun q : FieldPath => p ++ q := by
  intro q r h
  apply ext_segments
  have hsegments : p.segments ++ q.segments = p.segments ++ r.segments :=
    congrArg FieldPath.segments h
  exact List.append_cancel_left hsegments

@[simp] theorem covers_append_append (p q r : FieldPath) :
    (p ++ q).covers (p ++ r) = q.covers r := by
  rw [Bool.eq_iff_iff, covers_iff, covers_iff, segments_append, segments_append,
    List.prefix_append_right_inj]

theorem segments_ne_append (p q : FieldPath) : p.segments ≠ (p ++ q).segments := by
  simp [q.ne_nil]

/-- Whatever is strictly below a path was taken below it. -/
theorem exists_eq_append_of_prefix_of_ne (habove : p.segments <+: q.segments)
    (hne : p.segments ≠ q.segments) : ∃ r, q = p ++ r := by
  obtain ⟨rest, hrest⟩ := habove
  have hnil : rest ≠ [] := by
    rintro rfl
    exact hne (by rwa [List.append_nil] at hrest)
  have hsegments : ∀ s ∈ rest, IsSegment s := fun s hs =>
    q.isSegment s (hrest ▸ List.mem_append_right _ hs)
  exact ⟨⟨rest, hnil, hsegments⟩, ext_segments hrest.symm⟩

/-- Whatever is at or below a path that was taken below `p` was taken below `p` itself. -/
theorem exists_eq_append_of_covers (h : (p ++ q).covers r = true) :
    ∃ s, r = p ++ s ∧ q.covers s = true := by
  have hprefix : (p ++ q).segments <+: r.segments := covers_iff.mp h
  have hne : p.segments ≠ r.segments := by
    intro heq
    have hle : (p ++ q).segments.length ≤ p.segments.length := heq ▸ hprefix.length_le
    have hpos : 0 < q.segments.length := List.length_pos_iff.mpr q.ne_nil
    rw [segments_append, List.length_append] at hle
    omega
  obtain ⟨s, rfl⟩ := exists_eq_append_of_prefix_of_ne ((List.prefix_append _ _).trans hprefix) hne
  exact ⟨s, rfl, by rwa [covers_append_append] at h⟩

/-- What is left of a path is what was taken below the other one. -/
theorem below?_eq_some_iff : q.below? p = some r ↔ q = p ++ r := by
  unfold below?
  constructor
  · intro h
    dsimp only at h
    split at h
    · rename_i hbelow
      cases h
      apply ext_segments
      exact (List.prefix_iff_eq_append.mp (covers_iff.mp hbelow.1)).symm
    · cases h
  · rintro rfl
    have hrest : (p ++ r).segments.drop p.segments.length = r.segments := by simp
    rw [dif_pos ⟨covers_append p r, hrest ▸ r.ne_nil⟩]
    simp

theorem below?_append_append (p q r : FieldPath) : (p ++ q).below? (p ++ r) = q.below? r := by
  apply Option.ext
  intro s
  show _ = some s ↔ _ = some s
  rw [below?_eq_some_iff, below?_eq_some_iff, append_assoc]
  exact (append_injective p).eq_iff

/-! ## Bases -/

/-- The base of the fields whose base was `base?`, once all of them are taken below the path. -/
def baseBelow (p : FieldPath) : Option FieldPath → FieldPath
  | none => p
  | some base => p ++ base

theorem under_baseBelow (p q : FieldPath) (base? : Option FieldPath) :
    q.under (some (p.baseBelow base?)) = p ++ q.under base? := by
  cases base? with
  | none => rfl
  | some base => exact append_assoc p base q

end FieldPath

/-- A field that is named below the base is taken below the path with it. -/
theorem Node.fieldPath_baseBelow (p : FieldPath) (base? : Option FieldPath) (n : Node) :
    n.fieldPath (some (p.baseBelow base?)) = (n.fieldPath base?).map (p ++ ·) := by
  cases n with
  | identifier name =>
    simp only [fieldPath]
    cases FieldPath.ofMemberPath name with
    | error fault => rfl
    | ok q => exact congrArg Except.ok (FieldPath.under_baseBelow p q base?)
  | _ => rfl

end EntityQuery
