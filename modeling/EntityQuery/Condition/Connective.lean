import EntityQuery.Document.Value

/-!
# Combining conditions

A condition is a document, and a document holds of a record when each of its entries does. Two
conditions are put into one document where none of their entries would be lost by it, and into a
group otherwise.
-/

namespace EntityQuery.Condition

/-- The members that a condition contributes to a group: those of its own group if it is nothing
but a group of the same kind, and itself otherwise. -/
def members (operator : String) (d : Document) : List Value :=
  match d.entries with
  | [(key, .array items)] => if key = operator then items else [.document d]
  | _ => [.document d]

def group (operator : String) (a b : Document) : Document :=
  .single operator (.array (members operator a ++ members operator b))

/-- The condition is nothing but a conjunction of members, one of which is about a field that `b` is
about as well. -/
def sharesField (a b : Document) : Bool :=
  match a.entries with
  | [(key, .array items)] =>
    key == "$and" && items.any fun item =>
      match item with
      | .document m => m.keys.any fun k => !isOperatorKey k && b.contains k
      | _ => false
  | _ => false

/-- Two sets of operators on one field, unless they have an operator in common. -/
def mergeOperators? (a b : Document) : Option Document :=
  if a.isOperators && b.isOperators && !b.keys.any a.contains then
    some ⟨a.entries ++ b.entries⟩
  else
    none

/-- Add an entry to a condition. An entry for the same field is joined to the one there if both are
sets of operators; otherwise there is no room for it. -/
def mergeEntry? (d : Document) (entry : String × Value) : Option Document :=
  match d.find? entry.1 with
  | none => some (d.insert entry.1 entry.2)
  | some existing =>
    -- Groups and comparisons of fields are not sets of operators on a field.
    if isOperatorKey entry.1 then none
    else match existing, entry.2 with
      | .document a, .document b =>
        (mergeOperators? a b).map fun merged => d.insert entry.1 (.document merged)
      | _, _ => none

/-- Two conditions as one document, if no entry is lost. -/
def merge? (a b : Document) : Option Document :=
  b.entries.foldlM mergeEntry? a

/-- The condition that both hold. -/
def both (a b : Document) : Document :=
  if a.isEmpty then b
  else if b.isEmpty then a
  else if sharesField a b || sharesField b a then group "$and" a b
  else (merge? a b).getD (group "$and" a b)

/-- The condition that at least one holds. -/
def either (a b : Document) : Document :=
  group "$or" a b

/-- The condition that this one does not hold. -/
def complement (d : Document) : Document :=
  .single "$nor" (.array [.document d])

end EntityQuery.Condition
