import EntityQuery.Plan.Basic
import EntityQuery.Compile.Error

/-!
# Outcomes

Reading a clause changes a plan, and may fail. A failure does not undo what was read before it.
-/

namespace EntityQuery

/-- A plan as far as it was read, and what stopped the reading, if anything did. -/
structure Outcome where
  plan : Plan
  error? : Option CompileError

namespace Outcome

def ok (p : Plan) : Outcome := ⟨p, none⟩

def fail (p : Plan) (e : CompileError) : Outcome := ⟨p, some e⟩

/-- Go on reading, unless reading has stopped. -/
def andThen (x : Outcome) (f : Plan → Outcome) : Outcome :=
  match x.error? with
  | none => f x.plan
  | some _ => x

/-- The plan after an answer; without one the plan stays as it is. -/
def ofResult {α : Type} (p : Plan) (r : Except CompileError α) (f : α → Plan) : Outcome :=
  match r with
  | .ok a => ok (f a)
  | .error e => fail p e

/-- The plan, if it was read to the end. -/
def result (x : Outcome) : Except CompileError Plan :=
  match x.error? with
  | none => .ok x.plan
  | some e => .error e

end Outcome

end EntityQuery
