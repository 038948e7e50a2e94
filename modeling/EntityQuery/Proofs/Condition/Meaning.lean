import EntityQuery.Condition.Expression
import EntityQuery.Proofs.Condition.PatternReading
import EntityQuery.Proofs.Condition.Traced
import EntityQuery.Proofs.Condition.Truth

/-!
# The meaning of filter expressions

What a filter expression says is told twice: of the expression as it was written, and of the
condition that it is compiled to. Both are told in terms of the same atoms, about which nothing is
assumed but that a comparison may be turned round. Main statement: an expression and its condition
say the same, under every interpretation of the atoms.
-/

namespace EntityQuery

/-- The comparison that an operator on a field stands for. -/
def Comparison.ofKey? : String → Option Comparison
  | "$eq" => some .eq
  | "$ne" => some .ne
  | "$gt" => some .gt
  | "$gte" => some .ge
  | "$lt" => some .lt
  | "$lte" => some .le
  | _ => none

@[simp] theorem Comparison.ofKey?_key (c : Comparison) : ofKey? c.key = some c := by
  cases c <;> rfl

namespace Condition

/-! ## Atoms -/

/-- What a comparison is about: a field under its full name, or a value. -/
inductive Operand where
  | field (name : String)
  | value (v : Value)

/-- What the atoms of expressions and conditions say. -/
structure Interpretation where
  compare : Comparison → Operand → Operand → Bool
  compare_swap : ∀ c a b, compare c.swap b a = compare c a b
  /-- A text is found in a field, regardless of case or not. -/
  search : TextSearch → (ignoreCase : Bool) → (field text : String) → Bool
  /-- A field has one of some values. -/
  isIn : (field : String) → List Value → Bool
  /-- Whatever else may stand in a condition. -/
  other : Reading

namespace Interpretation

variable (I : Interpretation)

/-! ## What conditions say -/

/-- Whether a pattern matches regardless of case, by the modifier that stands beside it. -/
def ignoresCase? (operators : List (String × Value)) : Option Bool :=
  match operators.lookup "$options" with
  | none => some false
  | some (.string s) => if s = "i" then some true else none
  | some _ => none

/-- What one of the operators on a field says. The modifier says nothing by itself. -/
def operatorHolds (name : String) (operators : List (String × Value)) (key : String) (v : Value) :
    Bool :=
  match Comparison.ofKey? key with
  | some c => I.compare c (.field name) (.value v)
  | none =>
    match key, v with
    | "$in", .array values => I.isIn name values
    | "$regex", .string pattern =>
      match Pattern.read? pattern, ignoresCase? operators with
      | some (m, text), some ignoreCase => I.search m ignoreCase name text
      | _, _ => I.other.field name [("$regex", .string pattern)]
    | "$options", _ => true
    | key, v => I.other.field name [(key, v)]

/-- The field that a reference names. -/
def referenced? (reference : String) : Option String :=
  match reference.toList with
  | '$' :: name => some (String.ofList name)
  | _ => none

/-- What an aggregation expression says: a truth value, or the comparison of two fields. -/
def expressionHolds : Value → Bool
  | .bool b => b
  | .document ⟨[(key, .array [.string a, .string b])]⟩ =>
    match Comparison.ofKey? key, referenced? a, referenced? b with
    | some c, some x, some y => I.compare c (.field x) (.field y)
    | _, _, _ => I.other.entry "$expr" (.document ⟨[(key, .array [.string a, .string b])]⟩)
  | v => I.other.entry "$expr" v

/-- The reading of conditions: every operator on a field has to hold. -/
def reading : Reading where
  field name operators := (operators.map fun e => I.operatorHolds name operators e.1 e.2).all id
  entry key v := if key = "$expr" then I.expressionHolds v else I.other.entry key v
  member := I.other.member

/-! ## What expressions say -/

/-- The full name of the field that a node names, below the base. -/
def fieldName? (base? : Option FieldPath) (n : Node) : Option String :=
  (n.fieldPath base?).toOption.map FieldPath.dotted

/-- What a node stands for beside a comparison: a field if it is a member path, else a value. -/
def operand? (base? : Option FieldPath) (c : Comparison) : Node → Option Operand
  | .identifier name => (fieldName? base? (.identifier name)).map .field
  | n => (n.operand c.name).toOption.map .value

/-- What a call says. -/
def callTruth? (o : Options) (base? : Option FieldPath) (name : String) (args : List Node) :
    Option Bool :=
  match name, args with
  | "contains", [field, .literal (.string text)] =>
    (fieldName? base? field).map fun f => I.search .contains o.ignoreCase f text
  | "startswith", [field, .literal (.string text)] =>
    (fieldName? base? field).map fun f => I.search .startsWith o.ignoreCase f text
  | "endswith", [field, .literal (.string text)] =>
    (fieldName? base? field).map fun f => I.search .endsWith o.ignoreCase f text
  | "in", field :: value :: values => do
    let f ← fieldName? base? field
    let vs ← (Node.operands "in" (value :: values)).toOption
    return I.isIn f vs
  | _, _ => none

/-- What the comparison of a call with a truth value says. Truth values have no order. -/
def callComparisonTruth? (o : Options) (base? : Option FieldPath) (c : Comparison) (name : String)
    (args : List Node) (b : Bool) : Option Bool :=
  match c with
  | .eq => (I.callTruth? o base? name args).map (· == b)
  | .ne => (I.callTruth? o base? name args).map (· != b)
  | _ => none

/-- What a comparison says of its operands, in the order in which they were written. -/
def comparisonTruth? (o : Options) (base? : Option FieldPath) (c : Comparison) :
    (left right : Node) → Option Bool
  | .call name args, .literal (.boolean b) => I.callComparisonTruth? o base? c name args b
  | .literal (.boolean b), .call name args => I.callComparisonTruth? o base? c name args b
  | left, right => do
    let a ← operand? base? c left
    let b ← operand? base? c right
    return I.compare c a b

/-- What an expression says, if it says anything. -/
def truth? (o : Options) (base? : Option FieldPath) : Node → Option Bool
  | .literal (.boolean b) => some b
  | .identifier name =>
    (fieldName? base? (.identifier name)).map fun f =>
      I.compare .eq (.field f) (.value (.bool true))
  | .call name args => I.callTruth? o base? name args
  | .binary .and left right => do
    return (← truth? o base? left) && (← truth? o base? right)
  | .binary .or left right => do
    return (← truth? o base? left) || (← truth? o base? right)
  | .binary (.comparison c) left right => I.comparisonTruth? o base? c left right
  | .unary .not operand => (truth? o base? operand).map (!·)
  | _ => none

end Interpretation

end Condition

end EntityQuery
