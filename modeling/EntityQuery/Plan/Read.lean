import EntityQuery.Condition.Expression
import EntityQuery.Plan.Outcome

/-!
# Reading a query into a plan

Each node of a query tells its part to a plan. The clauses of a query are read in a fixed order:
resource, filter, selection, order, paging, associations.
-/

namespace EntityQuery.Plan

/-! ## Single clauses -/

/-- Read a resource path: its first segment names the collection. -/
def readResource (p : Plan) : Option Node → Outcome
  | none => .ok p
  | some n =>
    if n.kind = Clause.resource.kind then
      .ofResult p (n.fieldPath none) fun path => p.setCollection path.first
    else
      .fail p (.unsupported (.node n.kind) (.clause .resource))

def readFilter (o : Options) (p : Plan) (expression : Node) : Outcome :=
  let condition := Condition.ofNode o p.base? expression
  .ofResult p condition.result fun d => p.addFilter d condition.paths

/-- Read a key of the order; its direction is ascending unless it says otherwise. -/
def readKey (p : Plan) (expression : Node) (direction : Option Direction) : Outcome :=
  .ofResult p (expression.fieldPath p.base?) fun path =>
    p.sortBy path (direction.getD .ascending)

/-- Read an item of the order clause: a key, or a field in ascending order. -/
def readOrderItem (p : Plan) : Node → Outcome
  | .orderKey expression direction => p.readKey expression direction
  | .identifier name => p.readKey (.identifier name) none
  | n => .fail p (.unsupported (.node n.kind) (.clause .orderBy))

def readOrder (p : Plan) : List Node → Outcome
  | [] => .ok p
  | item :: items => (p.readOrderItem item).andThen fun p => p.readOrder items

/-- The field that an item of the selection names. -/
def selectedPath (base? : Option FieldPath) (n : Node) : Except CompileError FieldPath :=
  match n with
  | .identifier _ => n.fieldPath base?
  | n => .error (.unsupported (.node n.kind) (.clause .select))

/-- The fields that the selection names; the first item that names none is reported. -/
def selectedPaths (base? : Option FieldPath) : List Node → Except CompileError (List FieldPath)
  | [] => .ok []
  | n :: ns =>
    match selectedPath base? n with
    | .error e => .error e
    | .ok path => (selectedPaths base? ns).map (path :: ·)

/-- The item that stands for all fields. -/
def isEverything : Node → Bool
  | .identifier name => name == "*"
  | _ => false

/-- Read the selection. All its items are looked at before the first is selected, and a selection of
everything is none. -/
def readSelection (p : Plan) (items : List Node) : Outcome :=
  if items.any isEverything then .ok p
  else .ofResult p (selectedPaths p.base? items) p.select

def count (clause : Clause) (n : Node) : Except CompileError UInt64 :=
  match n.literal? with
  | .error e => .error e
  | .ok (some (.integer k)) =>
    if 0 ≤ k then .ok k.toUInt64
    else .error (.literal (.clause clause) .count (String.ofList (Text.integer k.toInt)))
  | .ok (some l) => .error (.literal (.clause clause) .count l.type.describe)
  | .ok none => .error (.unsupported (.node n.kind) (.clause clause))

/-! ## Whole queries -/

mutual

/-- Read a node. An expression that stands where a clause could stand is a filter. -/
def read (o : Options) : Node → Plan → Outcome
  | .options clauses, p => readClauses o clauses p
  | .filter none, p => .ok p
  | .filter (some expression), p => p.readFilter o expression
  | .orderBy items, p => p.readOrder items
  | .orderKey expression direction, p => p.readKey expression direction
  | .select items, p => p.readSelection items
  | .skip n, p => .ofResult p (count .skip n) p.setSkip
  | .top n, p => .ofResult p (count .top n) p.setLimit
  | .expand items, p => readItems o items p
  | .literal l, p => p.readFilter o (.literal l)
  | .identifier name, p => p.readFilter o (.identifier name)
  | .call name args, p => p.readFilter o (.call name args)
  | .binary op left right, p => p.readFilter o (.binary op left right)
  | .unary op operand, p => p.readFilter o (.unary op operand)

def readClauses (o : Options) : QueryOptions → Plan → Outcome
  | ⟨resource?, filter?, orderBy?, select?, skip?, top?, expand?⟩, p =>
    (p.readResource resource?)
      |>.andThen (readClause o .filter filter?)
      |>.andThen (readClause o .select select?)
      |>.andThen (readClause o .orderBy orderBy?)
      |>.andThen (readClause o .skip skip?)
      |>.andThen (readClause o .top top?)
      |>.andThen (readClause o .expand expand?)

/-- Read a clause, which has to be a node of its own kind. -/
def readClause (o : Options) (clause : Clause) : Option Node → Plan → Outcome
  | none, p => .ok p
  | some n, p =>
    if n.kind = clause.kind then read o n p
    else .fail p (.unsupported (.node n.kind) (.clause clause))

def readItems (o : Options) : List ExpandItem → Plan → Outcome
  | [], p => .ok p
  | item :: items, p => (readItem o item p).andThen (readItems o items)

/-- Read an association. Its options are read into a plan of their own, and if that fails nothing is
joined. -/
def readItem (o : Options) : ExpandItem → Plan → Outcome
  | ⟨path, options?⟩, p =>
    match path.fieldPath p.base? with
    | .error e => .fail p e
    | .ok association =>
      let nested := readOptions o options? (.start (some association))
      .ofResult p nested.result fun nested =>
        p.join association (joinStages o.foreignField o.unwind association nested)

/-- Read the options of an association, which have to be options. -/
def readOptions (o : Options) : Option Node → Plan → Outcome
  | none, p => .ok p
  | some (.options clauses), p => readClauses o clauses p
  | some n, p => .fail p (.unsupported (.node n.kind) .expandOptions)

end

def readRoot (o : Options) : Option Node → Plan → Outcome
  | none, p => .ok p
  | some n, p => read o n p

end EntityQuery.Plan
