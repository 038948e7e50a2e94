import EntityQuery.Json.Number

/-!
# JSON trees as they are written

A tree in which every number still has its digits. It turns into a tree of integers and floats if
none of its numbers is out of range.
-/

namespace EntityQuery.Json

inductive Source where
  | null
  | bool (value : Bool)
  | number (value : Numeral)
  | string (value : String)
  | array (items : List Source)
  | object (members : List (String × Source))

namespace Source

mutual

/-- The tree that is read; none if a number in it is out of range. -/
def json? : Source → Option Json
  | .null => some .null
  | .bool b => some (.bool b)
  | .number n => n.json?
  | .string s => some (.string s)
  | .array items => (itemsJson? items).map .array
  | .object members => (membersJson? members).map .object

def itemsJson? : List Source → Option (List Json)
  | [] => some []
  | s :: items => do return (← s.json?) :: (← itemsJson? items)

def membersJson? : List (String × Source) → Option (List (String × Json))
  | [] => some []
  | (name, s) :: members => do return (name, ← s.json?) :: (← membersJson? members)

end

end Source

end EntityQuery.Json
