import EntityQuery.Syntax.Schema

/-!
# Decoding query trees

A JSON value is decoded along the fields of its kind. Members may come in any order and members of
other names are passed over. Of several faults the first one met is reported; fields that are
missing come last. Besides objects, arrays with the fields in their declared order are accepted.
-/

namespace EntityQuery

namespace Decode

def mismatch {α : Type} (found : Json) (expected : String) : Except DecodeError α :=
  .error (.invalidType (.ofJson found) expected)

/-! ## Names -/

def select {α : Type} (table : List (String × α)) (name : String) : Except DecodeError α :=
  match table.lookup name with
  | some a => .ok a
  | none => .error (.unknownName name (table.map Prod.fst))

/-- An entry of a table, by its name or as an object whose single member has the name and says
nothing more. -/
def choice {α : Type} (table : List (String × α)) : Json → Except DecodeError α
  | .string name => select table name
  | .object [(name, content)] => do
    let a ← select table name
    match content with
    | .null | .object [] => return a
    | other => mismatch other "unit"
  | .object _ => .error (.invalidValue .map "map with a single key")
  | other => mismatch other "string or map"

/-- The message for a place that a table of this length does not have. -/
def placeRange (length : Nat) : String :=
  "variant index 0 <= i < " ++ String.ofList (Text.decimal length)

/-- An entry of a table, by its name or by its place. -/
def entry {α : Type} (table : List (String × α)) : Json → Except DecodeError α
  | .string name => select table name
  | .int n =>
    if n < 0 then mismatch (.int n) "variant identifier"
    else match table[n.toNat]? with
      | some row => .ok row.2
      | none => .error (.invalidValue (.integer n) (placeRange table.length))
  | other => mismatch other "variant identifier"

/-- The kind that the members of an object name, in a member that must be there once. -/
def kindOf (found : Option NodeKind) : List (String × Json) → Except DecodeError NodeKind
  | [] =>
    match found with
    | some k => .ok k
    | none => .error (.missingField "kind")
  | (name, value) :: members =>
    if name = "kind" then
      match found with
      | some _ => .error (.duplicateField "kind")
      | none => do
        let k ← entry NodeKind.table value
        kindOf (some k) members
    else
      kindOf found members

/-! ## Literals -/

def text : Json → Except DecodeError String
  | .string s => .ok s
  | other => mismatch other "a string"

def integer : Json → Except DecodeError Int64
  | .int n =>
    if Int64.minValue.toInt ≤ n ∧ n ≤ Int64.maxValue.toInt then .ok (.ofInt n)
    else .error (.invalidValue (.integer n) "i64")
  | other => mismatch other "i64"

/-- A float, from any number. -/
def double : Json → Except DecodeError Binary64
  | .double x => .ok x
  | .int n => .ok (.ofInt n)
  | other => mismatch other "f64"

/-- What a message calls a decimal. -/
def decimalName : String := "a Decimal type representing a fixed-point number"

/-- A decimal, from its text or from a number. A float stands for its shortest decimal. -/
def decimal : Json → Except DecodeError Decimal
  | .string s => orInvalid (.text s) (Decimal.ofText? s)
  | .int n => orInvalid (.integer n) (Decimal.ofInt? n)
  | .double x =>
    orInvalid (.float x) ((Layout.plain.text? x).bind fun s => Decimal.ofPositional? s.toList)
  | other => mismatch other decimalName
where
  orInvalid (found : Found) (d? : Option Decimal) : Except DecodeError Decimal :=
    match d? with
    | some d => .ok d
    | none => .error (.invalidValue found decimalName)

/-- The literal of a type with this value. -/
def literalOf : LiteralType → Json → Except DecodeError Literal
  | .null, .null => .ok .null
  | .null, other => mismatch other "unit variant LiteralValue::Null"
  | .boolean, .bool b => .ok (.boolean b)
  | .boolean, other => mismatch other "a boolean"
  | .integer, j => (integer j).map .integer
  | .double, j => (double j).map .double
  | .decimal, j => (decimal j).map .decimal
  | .string, j => (text j).map .string
  | .dateTime, j => (text j).map .dateTime
  | .date, j => (text j).map .date
  | .guid, j => (text j).map .guid

/-- The literal of a type without a value. -/
def literalWithout : LiteralType → Except DecodeError Literal
  | .null => .ok .null
  | _ => .error (.missingField "value")

/-- A literal to which no further member adds anything. -/
def closing (l : Literal) : List (String × Json) → Except DecodeError Literal
  | [] => .ok l
  | (name, _) :: _ => .error (.duplicateField name)

/-- A literal from those of its members that are a type or a value. -/
def literalOfMembers : List (String × Json) → Except DecodeError Literal
  | [] => .error (.missingField "type")
  | (first, a) :: members =>
    match members with
    | [] =>
      if first = "type" then choice LiteralType.table a >>= literalWithout
      else .error (.missingField "type")
    | (second, b) :: rest =>
      if first = "type" then do
        let type ← choice LiteralType.table a
        if second = "type" then .error (.duplicateField second)
        else
          let l ← literalOf type b
          closing l rest
      else if second = "type" then do
        let type ← choice LiteralType.table b
        let l ← literalOf type a
        closing l rest
      else .error (.duplicateField second)

/-- A literal, as an object or as an array of type and value. A type is a choice in an object, and an
entry in an array. -/
def literal : Json → Except DecodeError Literal
  | .object members =>
    literalOfMembers (members.filter fun m => m.1 == "type" || m.1 == "value")
  | .array [] => .error (.invalidLength 0 "adjacently tagged enum LiteralValue")
  | .array (type :: items) => do
    let type ← entry LiteralType.table type
    match items with
    | [] => .error (.invalidLength 1 "adjacently tagged enum LiteralValue")
    | value :: rest =>
      let l ← literalOf type value
      if rest.isEmpty then return l
      else .error (.invalidLength (rest.length + 2) "2 elements in sequence")
  | other => mismatch other "adjacently tagged enum LiteralValue"

/-! ## Nodes -/

/-- A number of elements, as a message counts them. -/
def elements (count : Nat) : String :=
  String.ofList (Text.decimal count) ++ if count = 1 then " element" else " elements"

/-- A sequence with fewer items than the fields of `owner`. -/
def tooShort (owner : String) (fields length : Nat) : DecodeError :=
  .invalidLength length (owner ++ " with " ++ elements fields)

def isNull : Json → Bool
  | .null => true
  | _ => false

mutual

def shaped : (s : Shape) → Json → Except DecodeError s.Carrier
  | .text, j => text j
  | .literal, j => literal j
  | .binaryOperator, j => choice BinaryOperator.table j
  | .unaryOperator, j => choice UnaryOperator.table j
  | .direction, j => choice Direction.table j
  | .node, .object members => do
    let k ← kindOf none members
    -- No kind of node has a field named kind, so that member is passed over.
    let slots ← ofMembers k.fields (.empty _) members
    return k.build (← slots.close)
  | .node, .array [] => .error (.missingField "kind")
  | .node, .array (tag :: items) => do
    let k ← entry NodeKind.table tag
    return k.build (← ofItems (tooShort k.owner k.fields.length) 0 k.fields items)
  | .node, other => mismatch other "internally tagged enum Node"
  | .expandItem, .object members => do
    let slots ← ofMembers ExpandItem.fields (.empty _) members
    return ExpandItem.build (← slots.close)
  | .expandItem, .array items => do
    let fields := ExpandItem.fields
    return ExpandItem.build
      (← ofItems (tooShort "struct ExpandItem" fields.length) 0 fields items)
  | .expandItem, other => mismatch other "struct ExpandItem"
  | .list item, .array items => listOf item items
  | .list _, other => mismatch other "a sequence"

def listOf (item : Shape) : List Json → Except DecodeError (List item.Carrier)
  | [] => .ok []
  | j :: js => do
    let a ← shaped item j
    let as ← listOf item js
    return a :: as

/-- Fill slots from members, in the order of the members. -/
def ofMembers (fs : List Field) (slots : Slots fs) :
    List (String × Json) → Except DecodeError (Slots fs)
  | [] => .ok slots
  | (name, j) :: members => do
    let slots ← slots.fill name (fun f => f.decode (isNull j) fun s => shaped s j)
    ofMembers fs slots members

/-- Decode items as the values of fields, in the order of the fields; `count` items came before. -/
def ofItems (error : Nat → DecodeError) (count : Nat) :
    (fs : List Field) → List Json → Except DecodeError (Record fs)
  | [], [] => .ok ()
  | [], js => .error (.invalidLength (count + js.length) (elements count ++ " in sequence"))
  | fs, [] => Record.absent error count fs
  | f :: fs, j :: js => do
    let content ← f.decode (isNull j) fun s => shaped s j
    let record ← ofItems error (count + 1) fs js
    return (content, record)

end

end Decode

def Node.ofJson (j : Json) : Except DecodeError Node :=
  Decode.shaped .node j

end EntityQuery
