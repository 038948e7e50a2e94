import EntityQuery.Document.Value
import EntityQuery.Json.Writer

/-!
# Values as extended JSON

Values that JSON has no text for are written as an object whose only member names their type.
-/

namespace EntityQuery

namespace Value

/-- The name and the text of a value that needs to be wrapped. -/
def wrapper? : Value → Option (String × String)
  | .double .nan => some ("$numberDouble", "NaN")
  | .double (.infinite negative) =>
    some ("$numberDouble", if negative then "-Infinity" else "Infinity")
  | .decimal d => some ("$numberDecimal", d.toText)
  | .instant t => some ("$date", t.toText)
  | _ => none

/-- A value in its wrapper if it needs one, else the plain tree. -/
def wrappedOr (v : Value) (plain : Json) : Json :=
  match v.wrapper? with
  | some (name, text) => .object [(name, .string text)]
  | none => plain

mutual

def toJson : Value → Json
  | .null => .null
  | .bool b => .bool b
  | .int n => .int n.toInt
  | .string s => .string s
  | .double x => wrappedOr (.double x) (.double x)
  -- A decimal and an instant are wrapped always.
  | .decimal d => wrappedOr (.decimal d) .null
  | .instant t => wrappedOr (.instant t) .null
  | .array items => .array (listToJson items)
  | .document ⟨entries⟩ => .object (entriesToJson entries)

def listToJson : List Value → List Json
  | [] => []
  | v :: vs => v.toJson :: listToJson vs

def entriesToJson : List (String × Value) → List (String × Json)
  | [] => []
  | (key, v) :: entries => (key, v.toJson) :: entriesToJson entries

end

end Value

namespace Document

def toJson (d : Document) : Json :=
  (Value.document d).toJson

/-- The document on one line, for people. -/
def display (d : Document) : String :=
  Json.Style.display.compact d.toJson

end Document

end EntityQuery
