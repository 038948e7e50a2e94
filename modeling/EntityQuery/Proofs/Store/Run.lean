import EntityQuery.Compile.Target
import EntityQuery.Proofs.Document.Entries
import EntityQuery.Proofs.Store.Record

/-!
# Running queries on a store

What the arguments of a find and the stages of a pipeline do to a collection. A find filters, sorts,
skips, limits and projects, in this order; a pipeline runs its stages one after the other. How
conditions are decided, how values are ordered and what a join brings is left to the store.
-/

namespace EntityQuery

structure Store where
  /-- Whether a condition holds of a record. -/
  satisfies : Document → Document → Bool
  satisfies_empty : ∀ record, satisfies .empty record = true
  compare : Value → Value → Ordering
  transCmp_compare : Std.TransCmp compare
  /-- The value a record is sorted by, of those that a path leads to. -/
  choose : Direction → List Value → Value
  choose_nil : ∀ d, choose d [] = .null
  choose_singleton : ∀ d v, choose d [v] = v
  lookup : FieldPath → String → List FieldPath → List Document → List Document
  unwind : FieldPath → List Document → List Document

namespace Document

/-- The values that a record holds at a path. -/
def valuesOf (d : Document) (p : FieldPath) : List Value :=
  (Value.document d).valuesAt p.segments

/-- The record with only the fields at or below the paths. -/
def keepPaths (paths : List FieldPath) (d : Document) : Document :=
  d.keep (paths.map FieldPath.segments)

end Document

namespace Store

variable (S : Store)

/-! ## Sorting -/

/-- The value of a record at a key of the order; a missing one counts as null. -/
def keyValue (path : FieldPath) (d : Direction) (record : Document) : Value :=
  S.choose d (record.valuesOf path)

def compareKey (path : FieldPath) (d : Direction) (r s : Document) : Ordering :=
  match d with
  | .ascending => S.compare (S.keyValue path d r) (S.keyValue path d s)
  | .descending => S.compare (S.keyValue path d s) (S.keyValue path d r)

/-- Compare by the first key that tells the records apart. -/
def compareBy : List SortKey → Document → Document → Ordering
  | [] => fun _ _ => .eq
  | (path, d) :: keys => compareLex (S.compareKey path d) (compareBy keys)

/-- Records that the keys do not tell apart stay in their order. -/
def sort (keys : List SortKey) (records : List Document) : List Document :=
  records.mergeSort fun r s => (S.compareBy keys r s).isLE

/-! ## Stages and finds -/

def runStage : Stage → List Document → List Document
  | .matching condition, records => records.filter (S.satisfies condition)
  | .lookup association foreignField kept, records => S.lookup association foreignField kept records
  | .unwind association, records => S.unwind association records
  | .project paths, records => records.map (Document.keepPaths paths)
  | .sort keys, records => S.sort keys records
  | .skip count, records => records.drop count.toNat
  | .limit count, records => records.take count.toNat

/-- Run the stages of a pipeline one after the other. -/
def run (stages : List Stage) (records : List Document) : List Document :=
  stages.foldl (fun records stage => S.runStage stage records) records

def skipUpTo (count? : Option UInt64) (records : List Document) : List Document :=
  match count? with
  | some count => records.drop count.toNat
  | none => records

/-- A limit of zero does not limit a find. -/
def limitTo (count? : Option UInt64) (records : List Document) : List Document :=
  match count? with
  | some count => if count = 0 then records else records.take count.toNat
  | none => records

/-- A selection of nothing keeps all fields. -/
def narrow (selection : Selection) (records : List Document) : List Document :=
  if selection.isEmpty then records else records.map (Document.keepPaths selection)

def find (q : FindQuery) (records : List Document) : List Document :=
  narrow q.selection
    (limitTo q.limit? (skipUpTo q.skip? (S.sort q.sort (records.filter (S.satisfies q.filter)))))

/-! ## The stages of a plan without joins -/

variable {p : Plan} {records : List Document}

theorem run_append (a b : List Stage) (records : List Document) :
    S.run (a ++ b) records = S.run b (S.run a records) :=
  List.foldl_append

theorem run_nil (records : List Document) : S.run [] records = records :=
  rfl

theorem run_singleton (s : Stage) (records : List Document) :
    S.run [s] records = S.runStage s records :=
  rfl

theorem run_matchingStage (p : Plan) (records : List Document) :
    S.run p.matchingStage records = records.filter (S.satisfies p.filter) := by
  unfold Plan.matchingStage
  split
  · rename_i hempty
    rw [run_nil, Document.eq_empty_of_isEmpty hempty,
      List.filter_eq_self.mpr fun r _ => S.satisfies_empty r]
  · rfl

/-- Without keys the records stay as they are. -/
theorem sort_nil (records : List Document) : S.sort [] records = records := by
  apply List.mergeSort_of_pairwise
  exact List.pairwise_of_forall fun _ _ => rfl

theorem run_sortStage (p : Plan) (records : List Document) :
    S.run p.sortStage records = S.sort p.sort records := by
  unfold Plan.sortStage
  split
  · rename_i hempty
    rw [run_nil, List.isEmpty_iff.mp hempty, sort_nil]
  · rfl

theorem run_skipStage (p : Plan) (records : List Document) :
    S.run p.skipStage records = skipUpTo p.skip? records := by
  unfold Plan.skipStage
  cases p.skip? <;> rfl

theorem run_limitStage (hlimit : p.limit? ≠ some 0) (records : List Document) :
    S.run p.limitStage records = limitTo p.limit? records := by
  unfold Plan.limitStage
  cases h : p.limit? with
  | none => rfl
  | some count =>
    have hcount : count ≠ 0 := by
      rintro rfl
      exact hlimit h
    rw [limitTo, if_neg hcount]
    rfl

theorem run_projectStage (hexpanded : p.expanded = []) (records : List Document) :
    S.run p.projectStage records = narrow p.selection records := by
  unfold Plan.projectStage narrow
  split
  · rfl
  · have hprojected : p.projected = p.selection := by
      rw [Plan.projected, hexpanded]
      rfl
    rw [run_singleton, hprojected]
    rfl

/-- A pipeline without joins narrows the records before it sorts them. -/
theorem run_pipeline (hjoins : p.joins = []) (hexpanded : p.expanded = [])
    (hlimit : p.limit? ≠ some 0) (records : List Document) :
    S.run p.pipeline records =
      limitTo p.limit? (skipUpTo p.skip?
        (S.sort p.sort (narrow p.selection (records.filter (S.satisfies p.filter))))) := by
  rw [Plan.pipeline, run_append, run_append, run_append, run_append, run_append, hjoins, run_nil,
    run_matchingStage, run_projectStage S hexpanded, run_sortStage, run_skipStage,
    run_limitStage S hlimit]

end Store

end EntityQuery
