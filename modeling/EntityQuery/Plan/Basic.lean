import EntityQuery.Condition.Connective
import EntityQuery.Stage

/-!
# Plans

What is known of a query while its clauses are read: one place for each clause, and the stages that
its associations add. Every place keeps the rule of its clause, so a plan never selects a field
twice and never sorts by a field twice.
-/

namespace EntityQuery

/-- The paths of a selection, none of which covers another. -/
abbrev Selection := List FieldPath

namespace Selection

/-- Some path of the selection covers `p`. -/
def covers (s : Selection) (p : FieldPath) : Bool :=
  s.any fun q => q.covers p

/-- Add a path. A path that is covered already adds nothing, and a path takes the place of those it
covers. -/
def add (s : Selection) (p : FieldPath) : Selection :=
  if s.covers p then s else s.filter (fun q => !p.covers q) ++ [p]

/-- A path of the selection is above or below `p`. -/
def overlaps (s : Selection) (p : FieldPath) : Bool :=
  s.any fun q => q.covers p || p.covers q

end Selection

/-- Add an element to a list that keeps each element once, where it came first. -/
def addNew {α : Type} [DecidableEq α] (as : List α) (a : α) : List α :=
  if a ∈ as then as else as ++ [a]

/-- Set the direction of a path in a sort order. A path that is there keeps its place. -/
def setDirection (p : FieldPath) (d : Direction) : List SortKey → List SortKey
  | [] => [(p, d)]
  | (q, e) :: keys => if q = p then (q, d) :: keys else (q, e) :: setDirection p d keys

structure Plan where
  /-- The path of the association that the plan is for. -/
  base? : Option FieldPath
  collection? : Option String
  filter : Document
  /-- The fields that the filter reads, in the order of first reading. -/
  filterPaths : List FieldPath
  selection : Selection
  sort : List SortKey
  skip? : Option UInt64
  limit? : Option UInt64
  /-- The associations that are joined at this level, in their order. -/
  expanded : List FieldPath
  /-- The stages that the associations add. -/
  joins : List Stage

namespace Plan

/-- A plan in which no clause has been read, for the fields below a base. -/
def start (base? : Option FieldPath) : Plan where
  base? := base?
  collection? := none
  filter := .empty
  filterPaths := []
  selection := []
  sort := []
  skip? := none
  limit? := none
  expanded := []
  joins := []

/-- Name the collection. The first name stays. -/
def setCollection (p : Plan) (name : String) : Plan :=
  { p with collection? := p.collection? <|> some name }

/-- Demand a condition besides those demanded already. -/
def addFilter (p : Plan) (condition : Document) (paths : List FieldPath) : Plan :=
  { p with
    filter := Condition.both p.filter condition
    filterPaths := paths.foldl addNew p.filterPaths }

def select (p : Plan) (paths : List FieldPath) : Plan :=
  { p with selection := paths.foldl Selection.add p.selection }

def sortBy (p : Plan) (path : FieldPath) (d : Direction) : Plan :=
  { p with sort := setDirection path d p.sort }

def setSkip (p : Plan) (count : UInt64) : Plan :=
  { p with skip? := some count }

def setLimit (p : Plan) (count : UInt64) : Plan :=
  { p with limit? := some count }

/-! ## Stages of a plan -/

/-- The stage of a clause, unless the clause says nothing. -/
def matchingStage (p : Plan) : List Stage :=
  if p.filter.isEmpty then [] else [.matching p.filter]

def sortStage (p : Plan) : List Stage :=
  if p.sort.isEmpty then [] else [.sort p.sort]

def skipStage (p : Plan) : List Stage :=
  (p.skip?.map Stage.skip).toList

def limitStage (p : Plan) : List Stage :=
  (p.limit?.map Stage.limit).toList

/-- The paths that the last projection keeps: those selected, and each joined association that
neither holds a selected field nor lies in one. -/
def projected (p : Plan) : List FieldPath :=
  (p.expanded.filter fun a => !p.selection.overlaps a).foldl addNew p.selection

def projectStage (p : Plan) : List Stage :=
  if p.selection.isEmpty then [] else [.project p.projected]

/-- The pipeline of a plan. The filter runs on the records themselves; projection, order and paging
run on what the joins made of them. -/
def pipeline (p : Plan) : List Stage :=
  p.matchingStage ++ p.joins ++ p.projectStage ++ p.sortStage ++ p.skipStage ++ p.limitStage

/-! ## Joining an association -/

/-- The paths below the base of a nested plan that its join has to keep. A selection narrows the
joined records, but what the nested clauses read is kept besides it. -/
def keptBelow (nested : Plan) (association : FieldPath) : Selection :=
  if nested.selection.isEmpty then []
  else
    -- The deeper joins start from fields of the joined records, so these are read as well.
    (nested.selection ++ nested.filterPaths ++ nested.sort.map Prod.fst ++
        nested.expanded).foldl
      (fun kept path =>
        match path.below? association with
        | some relative => kept.add relative
        | none => kept)
      []

/-- The stages of an association: its join, its own clauses, and the joins below it. -/
def joinStages (foreignField : String) (unwind : Bool) (association : FieldPath) (nested : Plan) :
    List Stage :=
  .lookup association foreignField (nested.keptBelow association) ::
    (if unwind then [.unwind association] else []) ++ nested.matchingStage ++ nested.sortStage ++
      nested.skipStage ++ nested.limitStage ++ nested.joins

/-- Join an association after those joined already. -/
def join (p : Plan) (association : FieldPath) (stages : List Stage) : Plan :=
  { p with
    joins := p.joins ++ stages
    expanded := p.expanded ++ [association] }

end Plan

end EntityQuery
