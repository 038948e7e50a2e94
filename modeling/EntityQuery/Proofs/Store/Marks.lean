import EntityQuery.Proofs.Store.Sorting

/-!
# Stores that sort by a mark

A store may order values by anything it finds in them. The stores here look for one field, the mark.
With a mark that no key and no selected path mentions, the key that is to decide the order can be
picked at will.
-/

namespace EntityQuery

/-! ## A new name -/

theorem exists_not_mem (names : List String) : ∃ mark : String, mark ∉ names := by
  have hbound : ∃ n : Nat, ∀ s ∈ names, s.toList.length ≤ n := by
    induction names with
    | nil => exact ⟨0, by simp⟩
    | cons s names ih =>
      obtain ⟨n, hn⟩ := ih
      refine ⟨max s.toList.length n, ?_⟩
      intro t ht
      rcases List.mem_cons.mp ht with rfl | ht
      · omega
      · have := hn t ht
        omega
  obtain ⟨n, hn⟩ := hbound
  -- A name longer than all of them is none of them.
  refine ⟨String.ofList (List.replicate (n + 1) 'm'), fun hmem => ?_⟩
  have hlength := hn _ hmem
  rw [String.toList_ofList, List.length_replicate] at hlength
  omega

namespace Store

/-- The store in which all conditions hold and values are ordered by a rank. -/
def ofRank (rank : Value → Nat) : Store where
  satisfies _ _ := true
  satisfies_empty _ := rfl
  compare := compareOn rank
  transCmp_compare := inferInstanceAs (Std.TransCmp (compareOn rank))
  choose _ vs := vs.headD .null
  choose_nil _ := rfl
  choose_singleton _ _ := rfl
  lookup _ _ _ records := records
  unwind _ records := records

/-- How many marks a value carries. -/
def marks (mark : String) (v : Value) : Nat :=
  (v.valuesAt [mark]).length

def byMark (mark : String) : Store :=
  ofRank (marks mark)

def keyMarks (mark : String) (path : FieldPath) (record : Document) : Nat :=
  marks mark ((record.valuesOf path).headD .null)

theorem compareKey_byMark_eq_iff {mark : String} {path : FieldPath} {d : Direction}
    {r s : Document} :
    (byMark mark).compareKey path d r s = .eq ↔
      keyMarks mark path r = keyMarks mark path s := by
  cases d with
  | ascending => exact Nat.compare_eq_eq
  | descending =>
    rw [eq_comm (a := keyMarks mark path r)]
    exact Nat.compare_eq_eq

/-- Records compare equal if they carry the same marks at every key. -/
theorem compareBy_byMark_eq_iff {mark : String} {keys : List SortKey} {r s : Document} :
    (byMark mark).compareBy keys r s = .eq ↔
      ∀ key ∈ keys, keyMarks mark key.1 r = keyMarks mark key.1 s := by
  induction keys with
  | nil => simp [compareBy]
  | cons key keys ih =>
    obtain ⟨path, d⟩ := key
    show ((byMark mark).compareKey path d r s).then ((byMark mark).compareBy keys r s) = .eq ↔ _
    rw [Ordering.then_eq_eq, compareKey_byMark_eq_iff, ih, List.forall_mem_cons]

/-- A record carries no mark at a path if the path does not go on to one. -/
theorem keyMarks_eq_zero {mark : String} {path : FieldPath} {record : Document}
    (h : (Value.document record).valuesAt (path.segments ++ [mark]) = []) :
    keyMarks mark path record = 0 := by
  rw [Value.valuesAt_append] at h
  unfold keyMarks Document.valuesOf
  cases hvalues : (Value.document record).valuesAt path.segments with
  | nil => rfl
  | cons v vs =>
    rw [hvalues, itemsAt] at h
    rw [List.headD_cons, marks, (List.append_eq_nil_iff.mp h).1]
    rfl

/-- A path that ends in a mark leads past every path without it. -/
theorem not_prefix_of_not_mem {mark : String} {q path : List String} (h : mark ∉ path) :
    ¬q ++ [mark] <+: path := by
  intro hprefix
  have hmem := List.IsPrefix.subset hprefix (List.mem_append_right q (List.mem_singleton.mpr rfl))
  exact h hmem

/-! ## Records with one value -/

/-- The record that holds a value at a path, and nothing else. -/
def recordAlong : List String → Value → Document
  | [], _ => .empty
  | k :: ks, v => .single k (Value.along ks v)

theorem document_recordAlong {path : List String} (h : path ≠ []) (v : Value) :
    .document (recordAlong path v) = Value.along path v := by
  cases path with
  | nil => exact absurd rfl h
  | cons k ks => rfl

/-- The record with a mark below a path. -/
def markedRecord (mark : String) (path : FieldPath) : Document :=
  recordAlong (path.segments ++ [mark]) (.int 0)

/-- The record with a number at a path. -/
def plainRecord (path : FieldPath) : Document :=
  recordAlong path.segments (.int 1)

section Records

variable {mark : String} {path q : FieldPath}

theorem document_markedRecord :
    .document (markedRecord mark path) = Value.along (path.segments ++ [mark]) (.int 0) :=
  document_recordAlong (List.append_ne_nil_of_right_ne_nil _ (List.cons_ne_nil _ _)) _

theorem document_plainRecord :
    .document (plainRecord path) = Value.along path.segments (.int 1) :=
  document_recordAlong path.ne_nil _

theorem keyMarks_markedRecord : keyMarks mark path (markedRecord mark path) = 1 := by
  rw [keyMarks, Document.valuesOf, document_markedRecord, Value.valuesAt_along_append,
    List.headD_cons, marks, Value.valuesAt_along_self]
  rfl

/-- The mark is found below its own path only. -/
theorem valuesAt_markedRecord (hmark : mark ∉ path.segments) (hne : q ≠ path) :
    (Value.document (markedRecord mark path)).valuesAt (q.segments ++ [mark]) = [] := by
  rw [document_markedRecord]
  apply Value.valuesAt_along_eq_nil
  intro hprefix
  rcases List.prefix_concat_iff.mp hprefix with heq | hprefix
  · exact hne (FieldPath.ext_segments (List.append_cancel_right heq))
  · exact not_prefix_of_not_mem hmark hprefix

theorem valuesAt_plainRecord (hmark : mark ∉ path.segments) :
    (Value.document (plainRecord path)).valuesAt (q.segments ++ [mark]) = [] := by
  rw [document_plainRecord]
  exact Value.valuesAt_along_eq_nil (not_prefix_of_not_mem hmark) 1

theorem valuesOf_markedRecord (hmark : mark ∉ q.segments) (hcovers : ¬q.covers path = true) :
    (markedRecord mark path).valuesOf q = [] := by
  rw [Document.valuesOf, document_markedRecord]
  apply Value.valuesAt_along_eq_nil
  intro hprefix
  rcases List.prefix_concat_iff.mp hprefix with heq | hprefix
  · apply hmark
    rw [heq]
    simp
  · exact hcovers (FieldPath.covers_iff.mpr hprefix)

theorem valuesOf_plainRecord : (plainRecord path).valuesOf path = [.int 1] := by
  rw [Document.valuesOf, document_plainRecord, Value.valuesAt_along_self]

end Records

/-! ## Marks of narrowed records -/

/-- A mark that the selection does not mention is only kept below a kept path. -/
theorem keyMarks_keepPaths_eq_zero {mark : String} {selection : Selection} {path : FieldPath}
    {record : Document} (hmark : ∀ q ∈ selection, mark ∉ q.segments)
    (hrecord : selection.covers path = true →
      (Value.document record).valuesAt (path.segments ++ [mark]) = []) :
    keyMarks mark path (record.keepPaths selection) = 0 := by
  apply keyMarks_eq_zero
  by_cases hcovers : selection.covers path = true
  · -- What lies below a kept path is there as before.
    obtain ⟨q, hq, hqp⟩ := Selection.covers_iff.mp hcovers
    have hprefix : q.segments <+: path.segments ++ [mark] :=
      (FieldPath.covers_iff.mp hqp).trans (List.prefix_append _ _)
    rw [valuesAt_keepPaths ⟨q.segments, List.mem_map_of_mem hq, hprefix⟩]
    exact hrecord hcovers
  · -- A selected path could only go down to the mark by naming it.
    have hapart : Apart (selection.map FieldPath.segments) (path.segments ++ [mark]) := by
      intro segments hsegments
      obtain ⟨q, hq, rfl⟩ := List.mem_map.mp hsegments
      constructor
      · intro hprefix
        rcases List.prefix_concat_iff.mp hprefix with heq | hprefix
        · apply hmark q hq
          rw [heq]
          simp
        · exact hcovers (Selection.covers_iff.mpr ⟨q, hq, FieldPath.covers_iff.mpr hprefix⟩)
      · exact not_prefix_of_not_mem (hmark q hq)
    cases hpath : path.segments with
    | nil => exact absurd hpath path.ne_nil
    | cons k ks =>
      rw [hpath, List.cons_append] at hapart
      exact Document.valuesAt_keep_eq_nil hapart record

end Store

end EntityQuery
