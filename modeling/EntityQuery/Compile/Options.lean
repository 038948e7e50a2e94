/-!
# Options

What the caller may choose.
-/

namespace EntityQuery

structure Options where
  /-- The field of a joined collection that an association refers to. -/
  foreignField : String := "_id"
  /-- Put the joined document in place of the list of joined documents. -/
  unwind : Bool := true
  /-- Match texts regardless of case. -/
  ignoreCase : Bool := false
deriving DecidableEq

end EntityQuery
