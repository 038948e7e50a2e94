import EntityQuery.Syntax.Literal
import EntityQuery.Syntax.Operator

/-!
# Query trees

The tree of a parsed query: expressions, the clauses that hold them, and the options that hold the
clauses. A tree need not make sense. Any node may stand in any place, and what a place does not
allow is refused when the tree is compiled.
-/

namespace EntityQuery

mutual

inductive Node where
  | literal (value : Literal)
  /-- A member path, its segments separated by slashes. -/
  | identifier (name : String)
  | call (name : String) (args : List Node)
  | binary (op : BinaryOperator) (left right : Node)
  | unary (op : UnaryOperator) (operand : Node)
  /-- The clauses of a query, or of an association in it. -/
  | options (clauses : QueryOptions)
  /-- The filter clause; without an expression it filters nothing. -/
  | filter (expression : Option Node)
  | orderBy (items : List Node)
  /-- One key of the order clause. -/
  | orderKey (expression : Node) (direction : Option Direction)
  | select (items : List Node)
  | skip (count : Node)
  | top (count : Node)
  | expand (items : List ExpandItem)

/-- The clauses of a query, each of them optional. -/
structure QueryOptions where
  /-- The resource the query is about, as a member path. -/
  resource : Option Node
  filter : Option Node
  orderBy : Option Node
  select : Option Node
  skip : Option Node
  top : Option Node
  expand : Option Node

/-- An association to follow, with options for what is found there. -/
structure ExpandItem where
  path : Node
  options : Option Node

end

inductive NodeKind where
  | literal | identifier | call | binary | unary | options | filter | orderBy | orderKey | select
  | skip | top | expand
deriving DecidableEq

namespace NodeKind

/-- The kinds under the names that the encoding uses. -/
def table : List (String × NodeKind) :=
  [("literal", .literal), ("identifier", .identifier), ("functionCall", .call),
   ("binaryOp", .binary), ("unaryOp", .unary), ("queryOptions", .options), ("filter", .filter),
   ("orderBy", .orderBy), ("orderByItem", .orderKey), ("select", .select), ("skip", .skip),
   ("top", .top), ("expand", .expand)]

def tag : NodeKind → String
  | .literal => "literal"
  | .identifier => "identifier"
  | .call => "functionCall"
  | .binary => "binaryOp"
  | .unary => "unaryOp"
  | .options => "queryOptions"
  | .filter => "filter"
  | .orderBy => "orderBy"
  | .orderKey => "orderByItem"
  | .select => "select"
  | .skip => "skip"
  | .top => "top"
  | .expand => "expand"

def describe : NodeKind → String
  | .literal => "Literal"
  | .identifier => "Identifier"
  | .call => "FunctionCall"
  | .binary => "BinaryOp"
  | .unary => "UnaryOp"
  | .options => "QueryOptions"
  | .filter => "Filter"
  | .orderBy => "OrderBy"
  | .orderKey => "OrderByItem"
  | .select => "Select"
  | .skip => "Skip"
  | .top => "Top"
  | .expand => "Expand"

def isExpression : NodeKind → Bool
  | .literal | .identifier | .call | .binary | .unary => true
  | _ => false

end NodeKind

namespace Node

def kind : Node → NodeKind
  | .literal _ => .literal
  | .identifier _ => .identifier
  | .call .. => .call
  | .binary .. => .binary
  | .unary .. => .unary
  | .options _ => .options
  | .filter _ => .filter
  | .orderBy _ => .orderBy
  | .orderKey .. => .orderKey
  | .select _ => .select
  | .skip _ => .skip
  | .top _ => .top
  | .expand _ => .expand

def isExpression (n : Node) : Bool :=
  n.kind.isExpression

end Node

end EntityQuery
