import EntityQuery.Document.Value
import EntityQuery.FieldPath
import EntityQuery.Syntax.Operator

/-!
# Stages

The stages of an aggregation pipeline. A stage is kept in terms of field paths; its document, in
terms of their names, is what the document store is given.
-/

namespace EntityQuery

abbrev SortKey := FieldPath × Direction

inductive Stage where
  /-- Keep the records of which the condition holds. -/
  | matching (condition : Document)
  /-- Put the records that an association refers to in its place. Of each, only the fields at or
  below the kept paths are taken, unless there are none. -/
  | lookup (association : FieldPath) (foreignField : String) (kept : List FieldPath)
  /-- Put the record in place of the list that an association holds. -/
  | unwind (association : FieldPath)
  /-- Keep the fields at or below these paths. -/
  | project (paths : List FieldPath)
  | sort (keys : List SortKey)
  | skip (count : UInt64)
  | limit (count : UInt64)

/-- The document that keeps the fields at these paths. -/
def projectionDocument (paths : List FieldPath) : Document :=
  .ofEntries (paths.map fun p => (p.dotted, .int 1))

def sortDocument (keys : List SortKey) : Document :=
  .ofEntries (keys.map fun (p, d) => (p.dotted, .int d.sign))

namespace Stage

def operator : Stage → String
  | .matching _ => "$match"
  | .lookup .. => "$lookup"
  | .unwind _ => "$unwind"
  | .project _ => "$project"
  | .sort _ => "$sort"
  | .skip _ => "$skip"
  | .limit _ => "$limit"

/-- What a stage says under its operator. -/
def body : Stage → Value
  | .matching condition => .document condition
  | .lookup association foreignField kept =>
    let fields : List (String × Value) :=
      [("from", .string association.last), ("localField", .string association.dotted),
       ("foreignField", .string foreignField), ("as", .string association.dotted)]
    let narrowing : List (String × Value) :=
      if kept.isEmpty then []
      else
        let projection := Document.single "$project" (.document (projectionDocument kept))
        [("pipeline", .array [.document projection])]
    .document ⟨fields ++ narrowing⟩
  | .unwind association =>
    .document
      ⟨[("path", .string association.reference), ("preserveNullAndEmptyArrays", .bool true)]⟩
  | .project paths => .document (projectionDocument paths)
  | .sort keys => .document (sortDocument keys)
  | .skip count => .ofCount count
  | .limit count => .ofCount count

def toDocument (s : Stage) : Document :=
  .single s.operator s.body

def listToValue (stages : List Stage) : Value :=
  .array (stages.map fun s => .document s.toDocument)

end Stage

end EntityQuery
