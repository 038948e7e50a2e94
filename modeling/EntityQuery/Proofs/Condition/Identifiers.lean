import EntityQuery.Proofs.Condition.Grammar
import EntityQuery.Proofs.Condition.NamesRead

/-!
# The identifiers of an expression

An expression that has a condition has its identifiers only where fields are asked for, never inside
a value. Main statement: the fields that are noted on the way to the condition are those which the
identifiers name, one for each identifier and in their order, and they are what the condition reads.
-/

namespace EntityQuery

mutual

/-- The identifiers of a tree from left to right, each as often as it stands there. -/
def Node.identifiers : Node → List String
  | .literal _ => []
  | .identifier name => [name]
  | .call _ args => listIdentifiers args
  | .binary _ left right => left.identifiers ++ right.identifiers
  | .unary _ operand => operand.identifiers
  | .options clauses => clausesIdentifiers clauses
  | .filter expression? => optionIdentifiers expression?
  | .orderBy items => listIdentifiers items
  | .orderKey expression _ => expression.identifiers
  | .select items => listIdentifiers items
  | .skip count => count.identifiers
  | .top count => count.identifiers
  | .expand items => itemsIdentifiers items

def listIdentifiers : List Node → List String
  | [] => []
  | n :: ns => n.identifiers ++ listIdentifiers ns

def optionIdentifiers : Option Node → List String
  | none => []
  | some n => n.identifiers

def clausesIdentifiers : QueryOptions → List String
  | ⟨resource?, filter?, orderBy?, select?, skip?, top?, expand?⟩ =>
    optionIdentifiers resource? ++ optionIdentifiers filter? ++ optionIdentifiers orderBy? ++
      optionIdentifiers select? ++ optionIdentifiers skip? ++ optionIdentifiers top? ++
      optionIdentifiers expand?

def itemsIdentifiers : List ExpandItem → List String
  | [] => []
  | ⟨path, options?⟩ :: items =>
    path.identifiers ++ optionIdentifiers options? ++ itemsIdentifiers items

end

/-! ## Values -/

theorem Node.IsValue.identifiers_eq_nil {n : Node} (h : n.IsValue) : n.identifiers = [] := by
  obtain ⟨l, h, -⟩ := h
  induction h with
  | literal => rfl
  | integer _ _ ih | double _ ih | decimal _ ih => exact ih

theorem Node.identifiers_of_operand {operator : String} {n : Node} {v : Value}
    (h : n.operand operator = .ok v) : n.identifiers = [] :=
  (Node.exists_operand_iff.mp ⟨v, h⟩).identifiers_eq_nil

theorem listIdentifiers_of_isValue {ns : List Node} (h : ∀ n ∈ ns, n.IsValue) :
    listIdentifiers ns = [] := by
  induction ns with
  | nil => rfl
  | cons n ns ih =>
    obtain ⟨hn, hns⟩ := List.forall_mem_cons.mp h
    rw [listIdentifiers, hn.identifiers_eq_nil, ih hns]
    rfl

/-! ## Fields -/

/-- The identifiers name these paths below the base, one after the other. -/
def Resolve (base? : Option FieldPath) (names : List String) (paths : List FieldPath) : Prop :=
  (names.map fun name => (Node.identifier name).fieldPath base?) = paths.map .ok

variable {base? : Option FieldPath}

theorem Resolve.append {names names' : List String} {paths paths' : List FieldPath}
    (h : Resolve base? names paths) (h' : Resolve base? names' paths') :
    Resolve base? (names ++ names') (paths ++ paths') := by
  unfold Resolve at h h' ⊢
  rw [List.map_append, List.map_append, h, h']

theorem Node.resolve_of_fieldPath {n : Node} {p : FieldPath} (h : n.fieldPath base? = .ok p) :
    Resolve base? n.identifiers [p] := by
  cases n with
  | identifier name => exact congrArg (fun x => [x]) h
  | _ => cases h

namespace Condition

open Node (IsField)

variable {o : Options} {d : Document}

/-! ## Calls -/

/-- All identifiers of a call are in its first argument. -/
theorem IsCall.listIdentifiers_eq {name : String} {field : Node} {values : List Node}
    (h : IsCall name (field :: values)) : listIdentifiers (field :: values) = field.identifiers := by
  cases h with
  | contains | startsWith | endsWith => exact List.append_nil _
  | isIn _ hvalues =>
    rw [listIdentifiers, listIdentifiers_of_isValue hvalues, List.append_nil]

theorem resolve_ofCall {name : String} {args : List Node}
    (h : (ofCall o base? name args).result = .ok d) :
    Resolve base? (listIdentifiers args) (ofCall o base? name args).paths := by
  have hcall : IsCall name args := exists_ofCall_iff.mp ⟨d, h⟩
  obtain ⟨field, values, p, rfl, hp, hpaths, -⟩ := ofCall_eq_ok h
  rw [hpaths, hcall.listIdentifiers_eq]
  exact Node.resolve_of_fieldPath hp

theorem resolve_ofCallComparison {c : Comparison} {name : String} {args : List Node} {l : Literal}
    (h : (ofCallComparison o base? c name args l).result = .ok d) :
    Resolve base? (listIdentifiers args) (ofCallComparison o base? c name args l).paths := by
  rcases ofCallComparison_cases c name l with hcall | hcomplement | ⟨e, hfail⟩
  · rw [hcall] at h ⊢
    exact resolve_ofCall h
  · -- The complement of a condition reads what the condition reads.
    rw [hcomplement] at h ⊢
    obtain ⟨a, ha, -⟩ := Traced.result_map_eq_ok.mp h
    exact resolve_ofCall ha
  · rw [hfail] at h
    cases h

/-! ## Expressions -/

theorem Yields.resolve {e : Node} {ps : List FieldPath} (h : Yields o base? e d ps) :
    Resolve base? e.identifiers ps := by
  induction h with
  | always | never => rfl
  | field hp => exact Node.resolve_of_fieldPath hp
  | call h => exact resolve_ofCall h
  | callTruth h =>
    rw [Node.identifiers, Node.identifiers, Node.identifiers, List.append_nil]
    exact resolve_ofCallComparison h
  | truthCall h =>
    rw [Node.identifiers, Node.identifiers, Node.identifiers, List.nil_append]
    exact resolve_ofCallComparison h
  | fields c hp hq => exact (Node.resolve_of_fieldPath hp).append (Node.resolve_of_fieldPath hq)
  | fieldValue hp hv =>
    rw [Node.identifiers, Node.identifiers_of_operand hv, List.append_nil]
    exact Node.resolve_of_fieldPath hp
  | valueField hp hv =>
    -- The value stands before the field, and it brings no identifier.
    rw [Node.identifiers, Node.identifiers_of_operand hv, List.nil_append]
    exact Node.resolve_of_fieldPath hp
  | both _ _ iha ihb | either _ _ iha ihb => exact iha.append ihb
  | complement _ ih => exact ih

theorem resolve_ofNode (e : Node) (h : (ofNode o base? e).result = .ok d) :
    Resolve base? e.identifiers (ofNode o base? e).paths :=
  (yields_ofNode e h).resolve

/-- **The fields that are noted for a condition are those that it reads.** They are the fields that
the identifiers of the expression name below the base, from left to right and with repeats, and
their names are the names that the condition reads, as keys at any depth of its groups or as
references in its expressions. -/
theorem paths_of_identifiers (o : Options) (base? : Option FieldPath) (e : Node)
    {d : Document} (h : (ofNode o base? e).result = .ok d) :
    (e.identifiers.map fun name => (Node.identifier name).fieldPath base?) =
        (ofNode o base? e).paths.map .ok ∧
      ∀ name, name ∈ namesRead d ↔ name ∈ (ofNode o base? e).paths.map FieldPath.dotted := by
  refine ⟨resolve_ofNode e h, fun name => ?_⟩
  rw [(built_ofNode e h).mem_namesRead, List.mem_map]

/-- A field that is compared with another one, with a value before it, and once more inside a
disjunction that is negated. -/
theorem paths_of_identifiers_below_owner :
    let owner : FieldPath := ⟨["Owner"], by decide, by decide +kernel⟩
    let age : Node := .identifier "Age"
    let compared : Node := .binary (.comparison .lt) age (.identifier "Limits/Age")
    let adult : Node := .binary (.comparison .le) (.literal (.integer 18)) age
    let named : Node := .call "contains" [.identifier "Name", .literal (.string "Age")]
    let unnamed : Node := .binary (.comparison .eq) (.literal (.boolean false)) named
    let e : Node := .binary .and compared (.unary .not (.binary .or adult unnamed))
    ∃ d, (ofNode {} (some owner) e).result = .ok d ∧
      e.identifiers = ["Age", "Limits/Age", "Age", "Name"] ∧
      (ofNode {} (some owner) e).paths.map FieldPath.dotted =
        ["Owner.Age", "Owner.Limits.Age", "Owner.Age", "Owner.Name"] ∧
      (e.identifiers.map fun name => (Node.identifier name).fieldPath (some owner)) =
        (ofNode {} (some owner) e).paths.map .ok ∧
      ∀ name, name ∈ namesRead d ↔
        name ∈ (ofNode {} (some owner) e).paths.map FieldPath.dotted := by
  intro owner age compared adult named unnamed e
  have hlowers : (ofNode {} (some owner) e).result.isOk = true := by decide +kernel
  cases h : (ofNode {} (some owner) e).result with
  | error =>
    rw [h] at hlowers
    cases hlowers
  | ok d =>
    have hfields := paths_of_identifiers {} (some owner) e h
    exact ⟨d, rfl, rfl, by decide +kernel, hfields⟩

end Condition

end EntityQuery
