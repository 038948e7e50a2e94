import EntityQuery.Proofs.Condition.Built
import EntityQuery.Proofs.Condition.Values

/-!
# The grammar of filter expressions

Which expressions have a condition is told by a grammar of its own: connectives over truth values,
fields, calls and comparisons, and in the last two a field on one side at least. The functions that
find conditions try one form after the other. Main statement: they accept the expressions of the
grammar and refuse all other trees, below any base and under any options.
-/

namespace EntityQuery.Condition

open Node (IsField IsValue)

/-! ## The forms of expressions -/

/-- A call of one of the four functions, each with a field and with what it looks for. -/
inductive IsCall : String → List Node → Prop
  | contains {field : Node} (h : IsField field) (text : String) :
      IsCall "contains" [field, .literal (.string text)]
  | startsWith {field : Node} (h : IsField field) (text : String) :
      IsCall "startswith" [field, .literal (.string text)]
  | endsWith {field : Node} (h : IsField field) (text : String) :
      IsCall "endswith" [field, .literal (.string text)]
  | isIn {field value : Node} {values : List Node} (h : IsField field)
      (hvalues : ∀ v ∈ value :: values, IsValue v) : IsCall "in" (field :: value :: values)

/-- The two sides of a comparison. A call can be compared with a truth value only, and only for
equality. -/
inductive IsComparison (c : Comparison) : (left right : Node) → Prop
  | fields {left right : Node} (hl : IsField left) (hr : IsField right) : IsComparison c left right
  | fieldValue {left right : Node} (hl : IsField left) (hr : IsValue right) :
      IsComparison c left right
  | valueField {left right : Node} (hl : IsValue left) (hr : IsField right) :
      IsComparison c left right
  | callTruth {name : String} {args : List Node} (hc : c = .eq ∨ c = .ne) (h : IsCall name args)
      (b : Bool) : IsComparison c (.call name args) (.literal (.boolean b))
  | truthCall {name : String} {args : List Node} (hc : c = .eq ∨ c = .ne) (h : IsCall name args)
      (b : Bool) : IsComparison c (.literal (.boolean b)) (.call name args)

/-- An expression that is true or false of a record. -/
inductive IsPredicate : Node → Prop
  | truth (b : Bool) : IsPredicate (.literal (.boolean b))
  | field {n : Node} (h : IsField n) : IsPredicate n
  | not {n : Node} (h : IsPredicate n) : IsPredicate (.unary .not n)
  | and {left right : Node} (hl : IsPredicate left) (hr : IsPredicate right) :
      IsPredicate (.binary .and left right)
  | or {left right : Node} (hl : IsPredicate left) (hr : IsPredicate right) :
      IsPredicate (.binary .or left right)
  | comparison {c : Comparison} {left right : Node} (h : IsComparison c left right) :
      IsPredicate (.binary (.comparison c) left right)
  | call {name : String} {args : List Node} (h : IsCall name args) : IsPredicate (.call name args)

variable {o : Options} {base? : Option FieldPath}

/-! ## Calls -/

theorem result_ofTextCall (name : String) (m : TextSearch) {field : Node} {p : FieldPath}
    (hp : field.fieldPath base? = .ok p) (text : String) :
    (ofTextCall o base? name m [field, .literal (.string text)]).result =
      .ok (onText o p m text) := by
  refine Traced.result_andThen_eq_ok.mpr ⟨p, ?_, Traced.result_map_eq_ok.mpr ⟨text, rfl, rfl⟩⟩
  rw [Traced.result_path, hp]

theorem result_ofMembership {field value : Node} {values : List Node} {p : FieldPath}
    {vs : List Value} (hp : field.fieldPath base? = .ok p)
    (hvs : Node.operands "in" (value :: values) = .ok vs) :
    (ofMembership base? (field :: value :: values)).result = .ok (onField p "$in" (.array vs)) := by
  refine Traced.result_andThen_eq_ok.mpr ⟨p, ?_, Traced.result_map_eq_ok.mpr ⟨vs, hvs, rfl⟩⟩
  rw [Traced.result_path, hp]

/-- A text function with the arguments that its condition asks for. -/
theorem isCall_text {name : String} {m : TextSearch} (hname : function? name = some (.text m))
    {field : Node} (h : IsField field) (text : String) :
    IsCall name [field, .literal (.string text)] := by
  rcases function?_eq_some hname with ⟨rfl, -⟩ | ⟨rfl, -⟩ | ⟨rfl, -⟩ | ⟨-, hm⟩
  · exact .contains h text
  · exact .startsWith h text
  · exact .endsWith h text
  · cases hm

theorem exists_ofCall_iff {name : String} {args : List Node} :
    (∃ d, (ofCall o base? name args).result = .ok d) ↔ IsCall name args := by
  constructor
  · rintro ⟨d, h⟩
    unfold ofCall at h
    split at h
    · rename_i m hname
      obtain ⟨field, text, p, rfl, hp, -⟩ := ofTextCall_eq_ok h
      exact isCall_text hname (Node.exists_fieldPath_iff.mp ⟨p, hp⟩) text
    · rename_i hname
      obtain ⟨field, value, values, p, vs, rfl, hp, hvs, -⟩ := ofMembership_eq_ok h
      have hfield : IsField field := Node.exists_fieldPath_iff.mp ⟨p, hp⟩
      have hvalues : ∀ v ∈ value :: values, IsValue v := Node.exists_operands_iff.mp ⟨vs, hvs⟩
      -- No other name stands for this function.
      rcases function?_eq_some hname with ⟨-, hm⟩ | ⟨-, hm⟩ | ⟨-, hm⟩ | ⟨rfl, -⟩
      · cases hm
      · cases hm
      · cases hm
      · exact .isIn hfield hvalues
    · cases h
  · intro h
    cases h with
    | contains h text | startsWith h text | endsWith h text =>
      obtain ⟨p, hp⟩ := h.exists_fieldPath base?
      exact ⟨_, result_ofTextCall _ _ hp text⟩
    | isIn h hvalues =>
      obtain ⟨p, hp⟩ := h.exists_fieldPath base?
      obtain ⟨vs, hvs⟩ := Node.exists_operands_iff.mpr hvalues
      exact ⟨_, result_ofMembership hp hvs⟩

/-! ## Comparisons -/

theorem exists_map_complement_iff {x : Traced Document} :
    (∃ d, (x.map complement).result = .ok d) ↔ ∃ d, x.result = .ok d := by
  simp only [Traced.result_map_eq_ok]
  exact ⟨fun ⟨_, a, ha, _⟩ => ⟨a, ha⟩, fun ⟨a, ha⟩ => ⟨_, a, ha, rfl⟩⟩

theorem exists_ofCallComparison_iff {c : Comparison} {name : String} {args : List Node}
    {l : Literal} :
    (∃ d, (ofCallComparison o base? c name args l).result = .ok d) ↔
      (c = .eq ∨ c = .ne) ∧ IsCall name args ∧ ∃ b, l = .boolean b := by
  rw [← @exists_ofCall_iff o base?]
  cases l with
  | boolean b =>
    -- The condition is that of the call or its complement, so there is one if the call has one.
    cases c with
    | eq => cases b <;> simp [ofCallComparison, exists_map_complement_iff]
    | ne => cases b <;> simp [ofCallComparison, exists_map_complement_iff]
    | _ => simp [ofCallComparison, Traced.result_fail]
  | _ => simp [ofCallComparison, Traced.result_fail]

theorem exists_ofFieldComparison {field value : Node} (hfield : IsField field)
    (hvalue : IsValue value) (written c : Comparison) :
    ∃ d, (ofFieldComparison base? written c field value).result = .ok d := by
  obtain ⟨p, hp⟩ := hfield.exists_fieldPath base?
  obtain ⟨v, hv⟩ := hvalue.exists_operand written.name
  refine ⟨onField p c.key v, Traced.result_andThen_eq_ok.mpr ⟨p, ?_, ?_⟩⟩
  · rw [Traced.result_path, hp]
  · exact Traced.result_map_eq_ok.mpr ⟨v, hv, rfl⟩

theorem exists_ofComparison_fields {l r : String} (hl : IsField (.identifier l))
    (hr : IsField (.identifier r)) (c : Comparison) :
    ∃ d, (ofComparison o base? c (.identifier l) (.identifier r)).result = .ok d := by
  obtain ⟨p, hp⟩ := hl.exists_fieldPath base?
  obtain ⟨q, hq⟩ := hr.exists_fieldPath base?
  refine ⟨betweenFields c p q, Traced.result_andThen_eq_ok.mpr ⟨p, ?_, ?_⟩⟩
  · rw [Traced.result_path, hp]
  · refine Traced.result_map_eq_ok.mpr ⟨q, ?_, rfl⟩
    rw [Traced.result_path, hq]

theorem exists_ofComparison_of_isComparison {c : Comparison} {left right : Node}
    (h : IsComparison c left right) : ∃ d, (ofComparison o base? c left right).result = .ok d := by
  cases h with
  | fields hl hr =>
    cases hl
    cases hr
    exact exists_ofComparison_fields (.identifier ‹_›) (.identifier ‹_›) c
  | fieldValue hl hr =>
    cases hl
    rw [ofComparison_identifier_left c _ hr.kind_ne_identifier]
    exact exists_ofFieldComparison (.identifier ‹_›) hr c c
  | valueField hl hr =>
    cases hr
    rw [ofComparison_identifier_right c _ hl.kind_ne_identifier]
    exact exists_ofFieldComparison (.identifier ‹_›) hl c c.swap
  | callTruth hc h b => exact exists_ofCallComparison_iff.mpr ⟨hc, h, b, rfl⟩
  | truthCall hc h b => exact exists_ofCallComparison_iff.mpr ⟨hc, h, b, rfl⟩

/-! ## Expressions -/

theorem result_and {left right : Node} {a b : Document}
    (ha : (ofNode o base? left).result = .ok a) (hb : (ofNode o base? right).result = .ok b) :
    (ofNode o base? (.binary .and left right)).result = .ok (both a b) := by
  rw [ofNode]
  exact Traced.result_andThen_eq_ok.mpr ⟨a, ha, Traced.result_map_eq_ok.mpr ⟨b, hb, rfl⟩⟩

theorem result_or {left right : Node} {a b : Document}
    (ha : (ofNode o base? left).result = .ok a) (hb : (ofNode o base? right).result = .ok b) :
    (ofNode o base? (.binary .or left right)).result = .ok (either a b) := by
  rw [ofNode]
  exact Traced.result_andThen_eq_ok.mpr ⟨a, ha, Traced.result_map_eq_ok.mpr ⟨b, hb, rfl⟩⟩

theorem exists_ofNode_of_isPredicate {e : Node} (h : IsPredicate e) :
    ∃ d, (ofNode o base? e).result = .ok d := by
  induction h with
  | truth b => cases b <;> exact ⟨_, rfl⟩
  | field h =>
    obtain ⟨p, hp⟩ := h.exists_fieldPath base?
    cases h
    exact ⟨_, Traced.result_map_eq_ok.mpr ⟨p, by rw [Traced.result_path, hp], rfl⟩⟩
  | not _ ih =>
    rw [ofNode]
    exact exists_map_complement_iff.mpr ih
  | and _ _ ihl ihr =>
    obtain ⟨a, ha⟩ := ihl
    obtain ⟨b, hb⟩ := ihr
    exact ⟨both a b, result_and ha hb⟩
  | or _ _ ihl ihr =>
    obtain ⟨a, ha⟩ := ihl
    obtain ⟨b, hb⟩ := ihr
    exact ⟨either a b, result_or ha hb⟩
  | comparison h => exact exists_ofComparison_of_isComparison h
  | call h => exact exists_ofCall_iff.mpr h

theorem Yields.isPredicate {e : Node} {d : Document} {ps : List FieldPath}
    (h : Yields o base? e d ps) : IsPredicate e := by
  induction h with
  | always => exact .truth true
  | never => exact .truth false
  | field hp => exact .field (Node.exists_fieldPath_iff.mp ⟨_, hp⟩)
  | call h => exact .call (exists_ofCall_iff.mp ⟨_, h⟩)
  | callTruth h =>
    obtain ⟨hc, hcall, -⟩ := exists_ofCallComparison_iff.mp ⟨_, h⟩
    exact .comparison (.callTruth hc hcall _)
  | truthCall h =>
    obtain ⟨hc, hcall, -⟩ := exists_ofCallComparison_iff.mp ⟨_, h⟩
    exact .comparison (.truthCall hc hcall _)
  | fields c hp hq =>
    have hl := Node.exists_fieldPath_iff.mp ⟨_, hp⟩
    exact .comparison (.fields hl (Node.exists_fieldPath_iff.mp ⟨_, hq⟩))
  | fieldValue hp hv =>
    have hfield := Node.exists_fieldPath_iff.mp ⟨_, hp⟩
    exact .comparison (.fieldValue hfield (Node.exists_operand_iff.mp ⟨_, hv⟩))
  | valueField hp hv =>
    have hfield := Node.exists_fieldPath_iff.mp ⟨_, hp⟩
    exact .comparison (.valueField (Node.exists_operand_iff.mp ⟨_, hv⟩) hfield)
  | both _ _ iha ihb => exact .and iha ihb
  | either _ _ iha ihb => exact .or iha ihb
  | complement _ ih => exact .not ih

theorem isPredicate_of_ofNode {e : Node} {d : Document} (h : (ofNode o base? e).result = .ok d) :
    IsPredicate e :=
  (yields_ofNode e h).isPredicate

/-- **An expression has a condition exactly if it belongs to the grammar**, below any base and under
any options, and every other tree is refused with an error. -/
theorem accepts_iff_isPredicate (o : Options) (base? : Option FieldPath) (e : Node) :
    ((∃ d, (ofNode o base? e).result = .ok d) ↔ IsPredicate e) ∧
      ((∃ err, (ofNode o base? e).result = .error err) ↔ ¬ IsPredicate e) := by
  have haccepts : (∃ d, (ofNode o base? e).result = .ok d) ↔ IsPredicate e :=
    ⟨fun ⟨_, h⟩ => isPredicate_of_ofNode h, exists_ofNode_of_isPredicate⟩
  refine ⟨haccepts, ?_⟩
  rw [← haccepts]
  cases (ofNode o base? e).result with
  | ok d => simp
  | error err => simp

end EntityQuery.Condition
