import EntityQuery.Calendar.Timestamp
import EntityQuery.Document.Value
import EntityQuery.Compile.Error

/-!
# Operands

The literal that an operand stands for, and the value that a literal is compared as.
-/

namespace EntityQuery

/-- The literal that a node stands for; none if it stands for none. Negated numbers are folded. -/
def Node.literal? : Node → Except CompileError (Option Literal)
  | .literal l => .ok (some l)
  | .unary .negate operand =>
    match operand.literal? with
    | .error e => .error e
    | .ok none => .error (.unsupported (.node operand.kind) .numericNegation)
    | .ok (some l) =>
      match l.neg? with
      | some negated => .ok (some negated)
      | none => .error (.literal .numericNegation .number l.type.describe)
  | _ => .ok none

namespace Literal

/-- A GUID is 32 hexadecimal digits in five groups with hyphens between them. -/
def spellsGuid (s : String) : Bool :=
  s.toList.length == 36 &&
    s.toList.zipIdx.all fun (c, i) =>
      if i ∈ [8, 13, 18, 23] then c == '-' else (Text.hexDigit? c).isSome

/-- The value that a literal is compared as beside an operator. Dates and times become instants, and
a GUID is written in lower case. -/
def toValue (operator : String) : Literal → Except CompileError Value
  | .null => .ok .null
  | .boolean b => .ok (.bool b)
  | .integer n => .ok (.int n)
  | .double x => .ok (.double x)
  | .decimal d => .ok (.decimal d)
  | .string s => .ok (.string s)
  | .dateTime s =>
    match Timestamp.read? s with
    | some t => .ok (.instant t)
    | none => .error (.literal (.beside operator) .timestamp s)
  | .date s =>
    match Date.ofText? s with
    | some d => .ok (.instant (.ofDate d))
    | none => .error (.literal (.beside operator) .date s)
  | .guid s =>
    if spellsGuid s then .ok (.string (String.ofList (s.toList.map Char.toLower)))
    else .error (.literal (.beside operator) .guid s)

end Literal

def Node.operand (operator : String) (n : Node) : Except CompileError Value :=
  match n.literal? with
  | .error e => .error e
  | .ok (some l) => l.toValue operator
  | .ok none => .error (.unsupported (.node n.kind) (.operandOf operator))

/-- The values of operands, in their order; the first fault is reported. -/
def Node.operands (operator : String) : List Node → Except CompileError (List Value)
  | [] => .ok []
  | n :: ns =>
    match n.operand operator with
    | .error e => .error e
    | .ok v => (Node.operands operator ns).map (v :: ·)

end EntityQuery
