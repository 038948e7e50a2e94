import EntityQuery.Text.Split

/-!
# Field paths

The path of a field inside a document. It is read from a member path, with slashes between the
segments, and written with dots. Segments are such that a written path can be read in one way only.
-/

namespace EntityQuery

namespace FieldPath

/-- A segment that can be written between dots and is not taken for an operator. -/
def IsSegment (s : String) : Prop :=
  s.toList ≠ [] ∧ s.toList.head? ≠ some '$' ∧ '.' ∉ s.toList

instance (s : String) : Decidable (IsSegment s) :=
  inferInstanceAs (Decidable (_ ∧ _ ∧ _))

inductive Fault where
  | empty
  | emptySegment
  | operatorSegment (segment : String)
  | dottedSegment (segment : String)
deriving DecidableEq

def Fault.message : Fault → String
  | .empty => "path is empty"
  | .emptySegment => "path has an empty segment"
  | .operatorSegment s => "segment `" ++ s ++ "` would be read as a query operator"
  | .dottedSegment s => "segment `" ++ s ++ "` contains `.`; type casts are not supported"

/-- What is wrong with a segment. -/
def segmentFault? (s : String) : Option Fault :=
  if s.toList = [] then some .emptySegment
  else if s.toList.head? = some '$' then some (.operatorSegment s)
  else if '.' ∈ s.toList then some (.dottedSegment s)
  else none

theorem segmentFault?_eq_none_iff {s : String} : segmentFault? s = none ↔ IsSegment s := by
  unfold segmentFault? IsSegment
  split
  · simp_all
  · split
    · simp_all
    · split <;> simp_all

end FieldPath

structure FieldPath where
  segments : List String
  ne_nil : segments ≠ []
  isSegment : ∀ s ∈ segments, FieldPath.IsSegment s
deriving DecidableEq

namespace FieldPath

/-! ## Reading and writing -/

/-- Read a member path. Its first segment that cannot stand in a path is reported. -/
def ofMemberPath (raw : String) : Except Fault FieldPath :=
  if raw.toList = [] then .error .empty
  else
    let segments := (Text.split '/' raw.toList).map String.ofList
    match h : segments.findSome? segmentFault? with
    | some fault => .error fault
    | none =>
      .ok
        { segments := segments
          ne_nil := by simp [segments, Text.split_ne_nil]
          isSegment := fun s hs =>
            segmentFault?_eq_none_iff.1 (List.findSome?_eq_none_iff.1 h s hs) }

/-- The segments with dots between them, as a document names the field. -/
def dotted (p : FieldPath) : String :=
  String.ofList (Text.join '.' (p.segments.map String.toList))

/-- The dotted path behind a dollar sign, as an expression refers to the field. -/
def reference (p : FieldPath) : String :=
  "$" ++ p.dotted

def first (p : FieldPath) : String :=
  p.segments.head p.ne_nil

def last (p : FieldPath) : String :=
  p.segments.getLast p.ne_nil

/-! ## Paths below paths -/

/-- The path `q` taken below the path `p`. -/
def append (p q : FieldPath) : FieldPath where
  segments := p.segments ++ q.segments
  ne_nil := by simp [p.ne_nil]
  isSegment := by
    intro s hs
    rcases List.mem_append.1 hs with h | h
    · exact p.isSegment s h
    · exact q.isSegment s h

instance : Append FieldPath := ⟨append⟩

@[simp] theorem segments_append (p q : FieldPath) : (p ++ q).segments = p.segments ++ q.segments :=
  rfl

/-- The path `q` is `p` or a path below it, so whoever has the field `p` has `q`. -/
def covers (p q : FieldPath) : Bool :=
  p.segments.isPrefixOf q.segments

/-- What is left of a path below the path `p`; nothing if it is not strictly below. -/
def below? (q p : FieldPath) : Option FieldPath :=
  let rest := q.segments.drop p.segments.length
  if h : p.covers q = true ∧ rest ≠ [] then
    some
      { segments := rest
        ne_nil := h.2
        isSegment := fun s hs => q.isSegment s (List.mem_of_mem_drop hs) }
  else
    none

/-- The path as it stands below a base, if there is one. -/
def under (base? : Option FieldPath) (p : FieldPath) : FieldPath :=
  match base? with
  | some base => base ++ p
  | none => p

end FieldPath

end EntityQuery
