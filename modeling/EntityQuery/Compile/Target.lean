import EntityQuery.Plan.Read

/-!
# Targets

A query compiles as a whole or not at all, to one of three targets: the arguments of a find,
a filter alone, or a pipeline. Only a pipeline can join associations.
-/

namespace EntityQuery

structure FindQuery where
  collection? : Option String
  filter : Document
  selection : Selection
  sort : List SortKey
  skip? : Option UInt64
  limit? : Option UInt64

namespace FindQuery

/-- The find of a plan; its joins are left out. -/
def ofPlan (p : Plan) : FindQuery :=
  ⟨p.collection?, p.filter, p.selection, p.sort, p.skip?, p.limit?⟩

def orNull {α : Type} (f : α → Value) : Option α → Value
  | some a => f a
  | none => .null

def toDocument (q : FindQuery) : Document :=
  ⟨[("collection", orNull .string q.collection?),
    ("query", .document q.filter),
    ("projection", .document (projectionDocument q.selection)),
    ("sort", .document (sortDocument q.sort)),
    ("skip", orNull .ofCount q.skip?),
    ("limit", orNull .ofCount q.limit?)]⟩

end FindQuery

namespace Compile

def plan (o : Options) (root? : Option Node) : Except CompileError Plan :=
  (Plan.readRoot o root? (.start none)).result

/-- The find of a query. Its associations are looked at but not joined. -/
def find (o : Options) (root? : Option Node) : Except CompileError FindQuery :=
  (plan o root?).map .ofPlan

def pipeline (o : Options) (root? : Option Node) : Except CompileError (List Stage) :=
  (plan o root?).map Plan.pipeline

/-- The part of a query that its filter is. Of the clauses of a query only the filter clause is
looked at; a root that is another clause has no filter. -/
def filterPart (o : Options) : Option Node → Outcome
  | some (.options clauses) => Plan.readClause o .filter clauses.filter (.start none)
  | some n =>
    if n.kind = .filter ∨ n.isExpression then Plan.read o n (.start none)
    else .ok (.start none)
  | none => .ok (.start none)

def filter (o : Options) (root? : Option Node) : Except CompileError Document :=
  (filterPart o root?).result.map Plan.filter

inductive Target where
  | find
  | filter
  | pipeline
deriving DecidableEq

/-- A query compiled to a target, as a value. -/
def value (o : Options) (target : Target) (root? : Option Node) : Except CompileError Value :=
  match target with
  | .find => (find o root?).map fun q => .document q.toDocument
  | .filter => (filter o root?).map .document
  | .pipeline => (pipeline o root?).map Stage.listToValue

end Compile

end EntityQuery
