import EntityQuery.Json.Writer
import EntityQuery.Text.Quoted

/-!
# What can be wrong with an encoded tree

The faults of a JSON value that is no query tree, and their messages.
-/

namespace EntityQuery

/-- What was found in a place, as far as a message tells it. -/
inductive Found where
  | null
  | boolean (value : Bool)
  | integer (value : Int)
  | float (value : Binary64)
  | text (value : String)
  | sequence
  | map

namespace Found

def ofJson : Json → Found
  | .null => .null
  | .bool b => .boolean b
  | .int n => .integer n
  | .double x => .float x
  | .string s => .text s
  | .array _ => .sequence
  | .object _ => .map

def describe : Found → String
  | .null => "null"
  | .boolean b => "boolean `" ++ (if b then "true" else "false") ++ "`"
  | .integer n => "integer `" ++ String.ofList (Text.integer n) ++ "`"
  | .float x => "floating point `" ++ String.ofList (Json.Style.interchange.double x) ++ "`"
  | .text s => "string " ++ Text.quoted s
  | .sequence => "sequence"
  | .map => "map"

end Found

inductive DecodeError where
  | invalidType (found : Found) (expected : String)
  /-- A value of the right type out of its range. -/
  | invalidValue (found : Found) (expected : String)
  /-- A sequence with too few or too many items. -/
  | invalidLength (length : Nat) (expected : String)
  /-- A name that is none of those expected. -/
  | unknownName (name : String) (expected : List String)
  | missingField (name : String)
  | duplicateField (name : String)

namespace DecodeError

/-- The names that would have been right. -/
def alternatives : List String → String
  | [a, b] => "`" ++ a ++ "` or `" ++ b ++ "`"
  | names => "one of " ++ String.intercalate ", " (names.map fun n => "`" ++ n ++ "`")

def message : DecodeError → String
  | .invalidType found expected => "invalid type: " ++ found.describe ++ ", expected " ++ expected
  | .invalidValue found expected => "invalid value: " ++ found.describe ++ ", expected " ++ expected
  | .invalidLength length expected =>
    "invalid length " ++ String.ofList (Text.decimal length) ++ ", expected " ++ expected
  | .unknownName name expected =>
    "unknown variant `" ++ name ++ "`, expected " ++ alternatives expected
  | .missingField name => "missing field `" ++ name ++ "`"
  | .duplicateField name => "duplicate field `" ++ name ++ "`"

end DecodeError

end EntityQuery
