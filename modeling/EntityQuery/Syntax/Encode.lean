import EntityQuery.Json.Writer
import EntityQuery.Syntax.Node

/-!
# Encoding query trees

A node is encoded as an object whose first member names its kind. Clauses that a query does not
have are left out, and so are the options that an association does not have; an absent expression
or direction is written as null.
-/

namespace EntityQuery

namespace Literal

/-- The value of a literal. The null literal has none; NaN and the infinities have no number. -/
def payload? : Literal → Option Json
  | .null => none
  | .boolean b => some (.bool b)
  | .integer n => some (.int n.toInt)
  | .double x => some (if x.isFinite then .double x else .null)
  | .decimal d => some (.string d.toText)
  | .string s | .dateTime s | .date s | .guid s => some (.string s)

def toJson (l : Literal) : Json :=
  .object (("type", .string l.type.tag) :: (l.payload?.map fun v => ("value", v)).toList)

end Literal

namespace Node

def tagged (k : NodeKind) (members : List (String × Json)) : Json :=
  .object (("kind", .string k.tag) :: members)

def nameOrNull (name? : Option String) : Json :=
  (name?.map Json.string).getD .null

mutual

def toJson : Node → Json
  | .literal value => tagged .literal [("value", value.toJson)]
  | .identifier name => tagged .identifier [("name", .string name)]
  | .call name args => tagged .call [("name", .string name), ("args", .array (listToJson args))]
  | .binary op left right =>
    tagged .binary [("op", .string op.name), ("left", left.toJson), ("right", right.toJson)]
  | .unary op operand => tagged .unary [("op", .string op.name), ("operand", operand.toJson)]
  | .options clauses => tagged .options (optionsToMembers clauses)
  | .filter expression => tagged .filter [("expression", optionToJson expression)]
  | .orderBy items => tagged .orderBy [("items", .array (listToJson items))]
  | .orderKey expression direction =>
    tagged .orderKey
      [("expression", expression.toJson), ("direction", nameOrNull (direction.map Direction.name))]
  | .select items => tagged .select [("items", .array (listToJson items))]
  | .skip count => tagged .skip [("value", count.toJson)]
  | .top count => tagged .top [("value", count.toJson)]
  | .expand items => tagged .expand [("items", .array (itemsToJson items))]

def listToJson : List Node → List Json
  | [] => []
  | n :: ns => n.toJson :: listToJson ns

def optionToJson : Option Node → Json
  | none => .null
  | some n => n.toJson

/-- A member for a node that is there, and nothing for one that is not. -/
def optionToMembers (name : String) : Option Node → List (String × Json)
  | none => []
  | some n => [(name, n.toJson)]

def optionsToMembers : QueryOptions → List (String × Json)
  | ⟨resource?, filter?, orderBy?, select?, skip?, top?, expand?⟩ =>
    optionToMembers "resource" resource? ++ optionToMembers "filter" filter? ++
      optionToMembers "orderBy" orderBy? ++ optionToMembers "select" select? ++
      optionToMembers "skip" skip? ++ optionToMembers "top" top? ++
      optionToMembers "expand" expand?

def itemsToJson : List ExpandItem → List Json
  | [] => []
  | ⟨path, options?⟩ :: items =>
    .object (("path", path.toJson) :: optionToMembers "options" options?) :: itemsToJson items

end

def toText (n : Node) : String :=
  Json.Style.interchange.compact n.toJson

end Node

end EntityQuery
