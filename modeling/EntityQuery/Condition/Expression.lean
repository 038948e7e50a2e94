import EntityQuery.Condition.Connective
import EntityQuery.Condition.Operand
import EntityQuery.Condition.Pattern
import EntityQuery.Condition.Traced
import EntityQuery.Compile.Options

/-!
# The conditions of expressions

The condition that a filter expression stands for, together with the fields it reads. The fields of
an expression on an association lie below the path of the association.
-/

namespace EntityQuery.Condition

def onField (p : FieldPath) (operator : String) (v : Value) : Document :=
  .single p.dotted (.document (.single operator v))

def betweenFields (c : Comparison) (p q : FieldPath) : Document :=
  .single "$expr"
    (.document (.single c.key (.array [.string p.reference, .string q.reference])))

def never : Document :=
  .single "$expr" (.bool false)

/-- The condition that a field matches a pattern. -/
def onText (o : Options) (p : FieldPath) (m : TextSearch) (text : String) : Document :=
  let pattern : List (String × Value) := [("$regex", .string (m.pattern text))]
  let modifier : List (String × Value) := if o.ignoreCase then [("$options", .string "i")] else []
  .single p.dotted (.document ⟨pattern ++ modifier⟩)

/-! ## Calls -/

inductive Function where
  | text (m : TextSearch)
  | isIn

def function? (name : String) : Option Function :=
  if name = "contains" then some (.text .contains)
  else if name = "startswith" then some (.text .startsWith)
  else if name = "endswith" then some (.text .endsWith)
  else if name = "in" then some .isIn
  else none

/-- The text that an argument of a function stands for. -/
def textArgument (function : String) (n : Node) : Except CompileError String :=
  match n.literal? with
  | .error e => .error e
  | .ok (some (.string s)) => .ok s
  | .ok (some l) => .error (.literal (.call function) .string l.type.describe)
  | .ok none => .error (.unsupported (.node n.kind) (.argumentOf function))

/-- The condition of a text function: a field, and the text looked for in it. -/
def ofTextCall (o : Options) (base? : Option FieldPath) (name : String) (m : TextSearch) :
    List Node → Traced Document
  | [target, text] =>
    (Traced.path base? target).andThen fun p =>
      (Traced.lift (textArgument name text)).map (onText o p m)
  | args => .fail (.arity name .twoArguments args.length)

/-- The condition of the function `in`: a field, and the values it may have, at least one. -/
def ofMembership (base? : Option FieldPath) : List Node → Traced Document
  | target :: value :: values =>
    (Traced.path base? target).andThen fun p =>
      (Traced.lift (Node.operands "in" (value :: values))).map fun vs =>
        onField p "$in" (.array vs)
  | args => .fail (.arity "in" .fieldAndValues args.length)

def ofCall (o : Options) (base? : Option FieldPath) (name : String) (args : List Node) :
    Traced Document :=
  match function? name with
  | some (.text m) => ofTextCall o base? name m args
  | some .isIn => ofMembership base? args
  | none => .fail (.unsupported (.function name) .filterExpression)

/-! ## Comparisons -/

/-- The condition of a call that is compared with a literal: the call itself or its complement. -/
def ofCallComparison (o : Options) (base? : Option FieldPath) (c : Comparison) (name : String)
    (args : List Node) : Literal → Traced Document
  | .boolean b =>
    match c with
    | .eq => if b then ofCall o base? name args else (ofCall o base? name args).map complement
    | .ne => if b then (ofCall o base? name args).map complement else ofCall o base? name args
    | c => .fail (.unsupported (.comparison c) (.comparisonWith name))
  | l => .fail (.literal (.comparisonWith name) .boolean l.type.describe)

/-- The condition of a field that stands beside a value. The comparison may have been turned round;
messages name it as it was written. -/
def ofFieldComparison (base? : Option FieldPath) (written : Comparison) (c : Comparison)
    (field value : Node) : Traced Document :=
  (Traced.path base? field).andThen fun p =>
    (Traced.lift (value.operand written.name)).map (onField p c.key)

/-- The condition of a comparison. A value may stand on either side of a field. -/
def ofComparison (o : Options) (base? : Option FieldPath) (c : Comparison) :
    (left right : Node) → Traced Document
  | .call name args, .literal l => ofCallComparison o base? c name args l
  | .literal l, .call name args => ofCallComparison o base? c name args l
  -- From here on a field is needed on one side at least.
  | .identifier l, .identifier r =>
    (Traced.path base? (.identifier l)).andThen fun p =>
      (Traced.path base? (.identifier r)).map fun q => betweenFields c p q
  | .identifier name, value => ofFieldComparison base? c c (.identifier name) value
  | value, .identifier name => ofFieldComparison base? c c.swap (.identifier name) value
  | _, _ => .fail (.arity c.name .fieldOperand 0)

/-! ## Expressions -/

/-- The condition of an expression that is a literal: it always or never holds. -/
def ofConstant (n : Node) : Except CompileError Document :=
  match n.literal? with
  | .error e => .error e
  | .ok (some (.boolean true)) => .ok .empty
  | .ok (some (.boolean false)) => .ok never
  | .ok (some l) => .error (.literal .filterPredicate .boolean l.type.describe)
  | .ok none => .error (.unsupported (.node n.kind) .filterPredicate)

/-- The condition of an expression, and the fields it reads in the order of reading. -/
def ofNode (o : Options) (base? : Option FieldPath) : Node → Traced Document
  | .binary .and left right =>
    (ofNode o base? left).andThen fun a => (ofNode o base? right).map (both a)
  | .binary .or left right =>
    (ofNode o base? left).andThen fun a => (ofNode o base? right).map (either a)
  | .binary (.comparison c) left right => ofComparison o base? c left right
  | .unary .not operand => (ofNode o base? operand).map complement
  | .unary .negate operand => .lift (ofConstant (.unary .negate operand))
  | .literal l => .lift (ofConstant (.literal l))
  | .call name args => ofCall o base? name args
  | .identifier name =>
    (Traced.path base? (.identifier name)).map fun p => onField p "$eq" (.bool true)
  | n => .fail (.unsupported (.node n.kind) .filterExpression)

end EntityQuery.Condition
