import EntityQuery.Calendar.Instant
import EntityQuery.Numeric.Binary64
import EntityQuery.Numeric.Decimal

/-!
# Documents

A document is an ordered list of entries with distinct keys. Its order is that of insertion, and an
entry that is written again keeps its place.
-/

namespace EntityQuery

mutual

inductive Value where
  | null
  | bool (value : Bool)
  | int (value : Int64)
  | double (value : Binary64)
  | decimal (value : Decimal)
  | string (text : String)
  | instant (value : Instant)
  | array (items : List Value)
  | document (value : Document)

structure Document where
  entries : List (String × Value)

end

/-- Keys that start with a dollar sign name operators, not fields. -/
def isOperatorKey (key : String) : Bool :=
  key.toList.head? == some '$'

namespace Document

def empty : Document := ⟨[]⟩

def single (key : String) (value : Value) : Document :=
  ⟨[(key, value)]⟩

def isEmpty (d : Document) : Bool :=
  d.entries.isEmpty

def keys (d : Document) : List String :=
  d.entries.map Prod.fst

def find? (d : Document) (key : String) : Option Value :=
  d.entries.lookup key

def contains (d : Document) (key : String) : Bool :=
  (d.find? key).isSome

/-- Write an entry into a list of entries: in the place of the one with this key, or at the end. -/
def insertEntry (key : String) (value : Value) : List (String × Value) → List (String × Value)
  | [] => [(key, value)]
  | (k, v) :: entries =>
    if k = key then (k, value) :: entries else (k, v) :: insertEntry key value entries

def insert (d : Document) (key : String) (value : Value) : Document :=
  ⟨insertEntry key value d.entries⟩

/-- The document to which these entries have been written in turn. -/
def ofEntries (entries : List (String × Value)) : Document :=
  entries.foldl (fun d (k, v) => d.insert k v) empty

/-- A document that says something about a field by operators only. -/
def isOperators (d : Document) : Bool :=
  !d.isEmpty && d.keys.all isOperatorKey

end Document

namespace Value

/-- The name of a value's type in messages. -/
def kindName : Value → String
  | .null => "null"
  | .bool _ => "boolean"
  | .int _ => "integer"
  | .double _ => "double"
  | .decimal _ => "decimal"
  | .string _ => "string"
  | .instant _ => "datetime"
  | .array _ => "array"
  | .document _ => "document"

def document? : Value → Option Document
  | .document d => some d
  | _ => none

def isOperators : Value → Bool
  | .document d => d.isOperators
  | _ => false

/-- A count as an integer value. Counts beyond the largest integer are written as that one. -/
def ofCount (n : UInt64) : Value :=
  .int (if n.toNat ≤ Int64.maxValue.toInt.toNat then .ofNat n.toNat else Int64.maxValue)

end Value

end EntityQuery
