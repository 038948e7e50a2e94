import EntityQuery.Syntax.DecodeError
import EntityQuery.Syntax.Node

/-!
# The fields of query trees

Each kind of node has a list of fields, and each field a shape. `Record` is the type of the values
of such a list, so a decoder that fills a record cannot put a value into the wrong place.
-/

namespace EntityQuery

/-- What a value of the encoding stands for. -/
inductive Shape where
  | text
  | literal
  | binaryOperator
  | unaryOperator
  | direction
  | node
  | expandItem
  | list (item : Shape)

def Shape.Carrier : Shape → Type
  | .text => String
  | .literal => Literal
  | .binaryOperator => BinaryOperator
  | .unaryOperator => UnaryOperator
  | .direction => Direction
  | .node => Node
  | .expandItem => ExpandItem
  | .list item => List item.Carrier

inductive Field where
  | required (name : String) (shape : Shape)
  /-- A field that may be left out or null. -/
  | optional (name : String) (shape : Shape)
  /-- A list that is empty when it is left out. -/
  | defaulted (name : String) (item : Shape)

namespace Field

def name : Field → String
  | .required name _ | .optional name _ | .defaulted name _ => name

def Content : Field → Type
  | .required _ shape => shape.Carrier
  | .optional _ shape => Option shape.Carrier
  | .defaulted _ item => List item.Carrier

/-- The value of a field that is left out; none if it must be there. -/
def absent? : (f : Field) → Option f.Content
  | .required .. => none
  | .optional .. => some none
  | .defaulted .. => some []

/-- Read a field by the decoder of its shape. A null stands for an optional value that is absent. -/
def decode (isNull : Bool) (decodeShape : (s : Shape) → Except DecodeError s.Carrier) :
    (f : Field) → Except DecodeError f.Content
  | .required _ shape => decodeShape shape
  | .optional _ shape => if isNull then .ok none else (decodeShape shape).map some
  | .defaulted _ item => decodeShape (.list item)

end Field

def Record : List Field → Type
  | [] => Unit
  | f :: fs => f.Content × Record fs

/-- A value for each field that has been met so far. -/
def Slots : List Field → Type
  | [] => Unit
  | f :: fs => Option f.Content × Slots fs

namespace Slots

def empty : (fs : List Field) → Slots fs
  | [] => ()
  | _ :: fs => (none, empty fs)

/-- Fill the slot of this name. A name without a slot is passed over, and a slot is filled once. -/
def fill (name : String) (decode : (f : Field) → Except DecodeError f.Content) :
    (fs : List Field) → Slots fs → Except DecodeError (Slots fs)
  | [], () => .ok ()
  | f :: fs, (slot, slots) =>
    if f.name = name then
      match slot with
      | some _ => .error (.duplicateField name)
      | none => (decode f).map fun content => (some content, slots)
    else
      (fill name decode fs slots).map fun slots => (slot, slots)

/-- The record of slots that are all filled, by what was met or by what stands for its absence. -/
def close : (fs : List Field) → Slots fs → Except DecodeError (Record fs)
  | [], () => .ok ()
  | f :: fs, (slot, slots) =>
    match slot <|> f.absent? with
    | some content => (close fs slots).map fun record => (content, record)
    | none => .error (.missingField f.name)

end Slots

/-- The record in which all fields are absent; fails with the given error if one must be there. The
error tells how many fields came before it. -/
def Record.absent (error : Nat → DecodeError) (count : Nat) :
    (fs : List Field) → Except DecodeError (Record fs)
  | [] => .ok ()
  | f :: fs =>
    match f.absent? with
    | some content => (absent error (count + 1) fs).map fun record => (content, record)
    | none => .error (error count)

namespace NodeKind

/-- The fields of a kind of node, in the order in which they are declared. -/
def fields : NodeKind → List Field
  | .literal => [.required "value" .literal]
  | .identifier => [.required "name" .text]
  | .call => [.required "name" .text, .defaulted "args" .node]
  | .binary => [.required "op" .binaryOperator, .required "left" .node, .required "right" .node]
  | .unary => [.required "op" .unaryOperator, .required "operand" .node]
  | .options =>
    [.optional "resource" .node, .optional "filter" .node, .optional "orderBy" .node,
     .optional "select" .node, .optional "skip" .node, .optional "top" .node,
     .optional "expand" .node]
  | .filter => [.optional "expression" .node]
  | .orderBy => [.required "items" (.list .node)]
  | .orderKey => [.required "expression" .node, .optional "direction" .direction]
  | .select => [.required "items" (.list .node)]
  | .skip => [.required "value" .node]
  | .top => [.required "value" .node]
  | .expand => [.required "items" (.list .expandItem)]

/-- The node of a kind with these values. -/
def build : (k : NodeKind) → Record k.fields → Node
  | .literal, (value, ()) => .literal value
  | .identifier, (name, ()) => .identifier name
  | .call, (name, args, ()) => .call name args
  | .binary, (op, left, right, ()) => .binary op left right
  | .unary, (op, operand, ()) => .unary op operand
  | .options, (resource?, filter?, orderBy?, select?, skip?, top?, expand?, ()) =>
    .options ⟨resource?, filter?, orderBy?, select?, skip?, top?, expand?⟩
  | .filter, (expression, ()) => .filter expression
  | .orderBy, (items, ()) => .orderBy items
  | .orderKey, (expression, direction, ()) => .orderKey expression direction
  | .select, (items, ()) => .select items
  | .skip, (count, ()) => .skip count
  | .top, (count, ()) => .top count
  | .expand, (items, ()) => .expand items

/-- The name of a kind of node where a message speaks of its fields. -/
def owner (k : NodeKind) : String :=
  "struct variant Node::" ++ k.describe

end NodeKind

namespace ExpandItem

def fields : List Field :=
  [.required "path" .node, .optional "options" .node]

def build : Record fields → ExpandItem
  | (path, options, ()) => ⟨path, options⟩

end ExpandItem

end EntityQuery
