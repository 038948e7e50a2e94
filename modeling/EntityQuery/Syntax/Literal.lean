import EntityQuery.Numeric.Binary64
import EntityQuery.Numeric.Decimal

/-!
# Literals

A literal together with its type. Timestamps, dates and GUIDs stay text here: whether they are well
formed is decided where the literal is used.
-/

namespace EntityQuery

inductive LiteralType where
  | null | boolean | integer | double | decimal | string | dateTime | date | guid
deriving DecidableEq

namespace LiteralType

/-- The types under the names that the encoding uses. -/
def table : List (String × LiteralType) :=
  [("null", .null), ("boolean", .boolean), ("integer", .integer), ("double", .double),
   ("decimal", .decimal), ("string", .string), ("dateTime", .dateTime), ("date", .date),
   ("guid", .guid)]

def tag : LiteralType → String
  | .null => "null"
  | .boolean => "boolean"
  | .integer => "integer"
  | .double => "double"
  | .decimal => "decimal"
  | .string => "string"
  | .dateTime => "dateTime"
  | .date => "date"
  | .guid => "guid"

def describe : LiteralType → String
  | .dateTime => "datetime"
  | t => t.tag

end LiteralType

inductive Literal where
  | null
  | boolean (value : Bool)
  | integer (value : Int64)
  | double (value : Binary64)
  | decimal (value : Decimal)
  | string (text : String)
  | dateTime (text : String)
  | date (text : String)
  | guid (text : String)
deriving DecidableEq

namespace Literal

def type : Literal → LiteralType
  | .null => .null
  | .boolean _ => .boolean
  | .integer _ => .integer
  | .double _ => .double
  | .decimal _ => .decimal
  | .string _ => .string
  | .dateTime _ => .dateTime
  | .date _ => .date
  | .guid _ => .guid

/-- The number with the other sign. The least integer has none, nor has anything but a number. -/
def neg? : Literal → Option Literal
  | .integer n => if n = Int64.minValue then none else some (.integer (-n))
  | .double x => some (.double x.neg)
  | .decimal d => some (.decimal d.neg)
  | _ => none

end Literal

end EntityQuery
