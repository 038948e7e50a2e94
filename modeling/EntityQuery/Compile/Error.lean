import EntityQuery.FieldPath
import EntityQuery.Syntax.Node
import EntityQuery.Text.Numeral

/-!
# Why a query cannot be compiled

The causes of a failure to compile, each with the place where it arose, and their messages.
-/

namespace EntityQuery

inductive Clause where
  | resource | filter | select | orderBy | skip | top | expand
deriving DecidableEq

namespace Clause

def kind : Clause → NodeKind
  | .resource => .identifier
  | .filter => .filter
  | .select => .select
  | .orderBy => .orderBy
  | .skip => .skip
  | .top => .top
  | .expand => .expand

def describe : Clause → String
  | .resource => "resource path"
  | .filter => "$filter"
  | .select => "$select"
  | .orderBy => "$orderby"
  | .skip => "$skip"
  | .top => "$top"
  | .expand => "$expand"

end Clause

/-- Where in a query something is wrong. -/
inductive Place where
  | clause (c : Clause)
  | expandOptions
  | fieldPath
  | filterExpression
  | filterPredicate
  | numericNegation
  /-- Beside an operator, or in the list of values. -/
  | beside (operator : String)
  | operandOf (operator : String)
  | call (function : String)
  | argumentOf (function : String)
  /-- The comparison of a call with a literal. -/
  | comparisonWith (function : String)
deriving DecidableEq

def Place.describe : Place → String
  | .clause c => c.describe
  | .expandOptions => "$expand options"
  | .fieldPath => "field path"
  | .filterExpression => "$filter expression"
  | .filterPredicate => "$filter predicate"
  | .numericNegation => "numeric negation"
  | .beside operator => operator
  | .operandOf operator => "operand of `" ++ operator ++ "`"
  | .call function => function ++ "()"
  | .argumentOf function => "argument of " ++ function ++ "()"
  | .comparisonWith function => "comparison with " ++ function ++ "()"

/-- What a place does not support. -/
inductive Unsupported where
  | node (kind : NodeKind)
  | comparison (c : Comparison)
  | function (name : String)
deriving DecidableEq

def Unsupported.describe : Unsupported → String
  | .node kind => kind.describe
  | .comparison c => "operator `" ++ c.name ++ "`"
  | .function name => "function `" ++ name ++ "`"

/-- The operands that an operator needs. -/
inductive Arity where
  | fieldOperand
  | twoArguments
  | fieldAndValues
deriving DecidableEq

def Arity.describe : Arity → String
  | .fieldOperand => "one field operand"
  | .twoArguments => "2 arguments"
  | .fieldAndValues => "at least 2 arguments"

/-- The literal that a place needs. -/
inductive Expected where
  | boolean
  | string
  | number
  | count
  | timestamp
  | date
  | guid
deriving DecidableEq

def Expected.describe : Expected → String
  | .boolean => "a boolean"
  | .string => "a string"
  | .number => "a number"
  | .count => "a non-negative integer"
  | .timestamp => "an RFC 3339 datetime"
  | .date => "a YYYY-MM-DD date"
  | .guid => "a GUID"

inductive CompileError where
  /-- A node, operator or function where there can be none of its kind. -/
  | unsupported (what : Unsupported) (place : Place)
  | arity (operator : String) (expected : Arity) (found : Nat)
  /-- A literal of the wrong type or out of range. -/
  | literal (place : Place) (expected : Expected) (found : String)
  | path (raw : String) (fault : FieldPath.Fault)
deriving DecidableEq

def CompileError.message : CompileError → String
  | .unsupported what place => "unsupported " ++ what.describe ++ " in " ++ place.describe
  | .arity operator expected found =>
    "`" ++ operator ++ "` expects " ++ expected.describe ++ ", found " ++
      String.ofList (Text.decimal found)
  | .literal place expected found =>
    "invalid literal in " ++ place.describe ++ ": expected " ++ expected.describe ++ ", found " ++
      found
  | .path raw fault => "cannot resolve field path `" ++ raw ++ "`: " ++ fault.message

/-- The field that a node names, below a base. Only an identifier names one. -/
def Node.fieldPath (base? : Option FieldPath) : Node → Except CompileError FieldPath
  | .identifier name =>
    match FieldPath.ofMemberPath name with
    | .ok p => .ok (p.under base?)
    | .error fault => .error (.path name fault)
  | n => .error (.unsupported (.node n.kind) .fieldPath)

end EntityQuery
