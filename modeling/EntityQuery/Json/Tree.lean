import EntityQuery.Numeric.Binary64

/-!
# JSON trees

A tree keeps what a text says: the order of the members of an object, members that share a name,
and whether a number was an integer.
-/

namespace EntityQuery

inductive Json where
  | null
  | bool (value : Bool)
  | int (value : Int)
  | double (value : Binary64)
  | string (value : String)
  | array (items : List Json)
  | object (members : List (String × Json))

end EntityQuery
