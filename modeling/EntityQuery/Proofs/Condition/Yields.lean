import EntityQuery.Condition.Expression
import EntityQuery.Proofs.Condition.Literal
import EntityQuery.Proofs.Condition.Traced

/-!
# What expressions yield

The functions that find conditions try one form of expressions after the other. An expression that
has a condition is of one of the forms listed here, and its condition and the fields that are looked
up on the way are told by the form. What is shown of the forms therefore holds of every expression
that is compiled.
-/

namespace EntityQuery

theorem Node.eq_identifier_of_kind {n : Node} (h : n.kind = .identifier) :
    ∃ name, n = .identifier name := by
  cases n with
  | identifier name => exact ⟨name, rfl⟩
  | _ => cases h

theorem Node.ne_identifier_of_operand {operator : String} {n : Node} {v : Value}
    (h : n.operand operator = .ok v) (name : String) : n ≠ .identifier name := by
  rintro rfl
  cases h

namespace Condition

variable {o : Options} {base? : Option FieldPath} {d : Document}

/-! ## Calls -/

theorem textArgument_eq_ok {name : String} {n : Node} {text : String}
    (h : textArgument name n = .ok text) : n = .literal (.string text) := by
  unfold textArgument at h
  split at h
  · cases h
  · rename_i hl
    cases h
    exact Node.eq_literal_of_literal? hl (Literal.neg?_ne_string · _)
  · cases h
  · cases h

/-- The text functions have their two arguments in common. -/
theorem ofTextCall_eq_ok {name : String} {m : TextSearch} {args : List Node} {d : Document}
    (h : (ofTextCall o base? name m args).result = .ok d) :
    ∃ field text p, args = [field, .literal (.string text)] ∧ field.fieldPath base? = .ok p ∧
      d = onText o p m text := by
  unfold ofTextCall at h
  split at h
  · rename_i field text
    obtain ⟨p, hp, h⟩ := Traced.result_andThen_eq_ok.mp h
    obtain ⟨s, hs, rfl⟩ := Traced.result_map_eq_ok.mp h
    rw [Traced.result_path] at hp
    rw [Traced.result_lift] at hs
    exact ⟨field, s, p, by rw [textArgument_eq_ok hs], hp, rfl⟩
  · cases h

theorem ofMembership_eq_ok {args : List Node} {d : Document}
    (h : (ofMembership base? args).result = .ok d) :
    ∃ field value values p vs, args = field :: value :: values ∧ field.fieldPath base? = .ok p ∧
      Node.operands "in" (value :: values) = .ok vs ∧ d = onField p "$in" (.array vs) := by
  unfold ofMembership at h
  split at h
  · rename_i field value values
    obtain ⟨p, hp, h⟩ := Traced.result_andThen_eq_ok.mp h
    obtain ⟨vs, hvs, rfl⟩ := Traced.result_map_eq_ok.mp h
    rw [Traced.result_path] at hp
    rw [Traced.result_lift] at hvs
    exact ⟨field, value, values, p, vs, rfl, hp, hvs, rfl⟩
  · cases h

theorem function?_eq_some {name : String} {f : Function} (h : function? name = some f) :
    name = "contains" ∧ f = .text .contains ∨ name = "startswith" ∧ f = .text .startsWith ∨
      name = "endswith" ∧ f = .text .endsWith ∨ name = "in" ∧ f = .isIn := by
  unfold function? at h
  grind

/-- There is a value for each operand. -/
theorem map_operand {operator : String} {ns : List Node} {vs : List Value}
    (h : Node.operands operator ns = .ok vs) : ns.map (Node.operand operator) = vs.map .ok := by
  induction ns generalizing vs with
  | nil =>
    cases h
    rfl
  | cons n ns ih =>
    rw [Node.operands] at h
    split at h
    · cases h
    · rename_i v hv
      obtain ⟨vs', hvs, rfl⟩ := exists_of_map_eq_ok h
      rw [List.map_cons, hv, ih hvs, List.map_cons]

theorem length_operands {operator : String} {ns : List Node} {vs : List Value}
    (h : Node.operands operator ns = .ok vs) : vs.length = ns.length := by
  have hlength := congrArg List.length (map_operand h)
  rw [List.length_map, List.length_map] at hlength
  exact hlength.symm

theorem exists_operand_of_mem {operator : String} {ns : List Node} {vs : List Value}
    (h : Node.operands operator ns = .ok vs) {v : Value} (hv : v ∈ vs) :
    ∃ n : Node, n.operand operator = .ok v := by
  obtain ⟨n, -, hn⟩ := (mem_iff_of_map_eq_ok (map_operand h)).mp hv
  exact ⟨n, hn⟩

/-- A call reads the field that is its first argument, and no other. -/
theorem paths_ofTextCall {name : String} {m : TextSearch} {field : Node} {p : FieldPath}
    (hp : field.fieldPath base? = .ok p) (text : Node) :
    (ofTextCall o base? name m [field, text]).paths = [p] := by
  have hpath : (Traced.path base? field).result = .ok p := by rw [Traced.result_path, hp]
  rw [ofTextCall, Traced.paths_andThen hpath, Traced.paths_path hp]
  rfl

theorem paths_ofMembership {field value : Node} {p : FieldPath}
    (hp : field.fieldPath base? = .ok p) (values : List Node) :
    (ofMembership base? (field :: value :: values)).paths = [p] := by
  have hpath : (Traced.path base? field).result = .ok p := by rw [Traced.result_path, hp]
  rw [ofMembership, Traced.paths_andThen hpath, Traced.paths_path hp]
  rfl

/-- The condition of a call depends on the function, on the field, and on what the other arguments
stand for. -/
theorem ofCall_eq_ok {name : String} {args : List Node}
    (h : (ofCall o base? name args).result = .ok d) :
    ∃ field values p, args = field :: values ∧ field.fieldPath base? = .ok p ∧
      (ofCall o base? name args).paths = [p] ∧
      ((∃ m text, function? name = some (.text m) ∧ d = onText o p m text) ∨
        ∃ vs, function? name = some .isIn ∧ Node.operands "in" values = .ok vs ∧ values ≠ [] ∧
          d = onField p "$in" (.array vs)) := by
  unfold ofCall at h ⊢
  cases hf : function? name with
  | none =>
    rw [hf] at h
    cases h
  | some f =>
    rw [hf] at h
    cases f with
    | text m =>
      obtain ⟨field, text, p, rfl, hp, rfl⟩ := ofTextCall_eq_ok h
      exact ⟨field, _, p, rfl, hp, paths_ofTextCall hp _, .inl ⟨m, text, rfl, rfl⟩⟩
    | isIn =>
      obtain ⟨field, value, values, p, vs, rfl, hp, hvs, rfl⟩ := ofMembership_eq_ok h
      exact ⟨field, _, p, rfl, hp, paths_ofMembership hp values,
        .inr ⟨vs, rfl, hvs, List.cons_ne_nil _ _, rfl⟩⟩

/-! ## Comparisons -/

/-- A call that is compared with a literal is the call itself, its complement or a fault. Which of
them it is depends neither on the arguments nor on how they are read. -/
theorem ofCallComparison_cases (c : Comparison) (name : String) (l : Literal) :
    (∀ o base? args, ofCallComparison o base? c name args l = ofCall o base? name args) ∨
      (∀ o base? args, ofCallComparison o base? c name args l =
        (ofCall o base? name args).map complement) ∨
      ∃ e, ∀ o base? args, ofCallComparison o base? c name args l = .fail e := by
  cases l with
  | boolean b =>
    cases c with
    | eq => cases b with
      | true => exact .inl fun _ _ _ => rfl
      | false => exact .inr (.inl fun _ _ _ => rfl)
    | ne => cases b with
      | true => exact .inr (.inl fun _ _ _ => rfl)
      | false => exact .inl fun _ _ _ => rfl
    | _ => exact .inr (.inr ⟨_, fun _ _ _ => rfl⟩)
  | _ => exact .inr (.inr ⟨_, fun _ _ _ => rfl⟩)

theorem ofFieldComparison_eq_ok {written c : Comparison} {field value : Node} {d : Document}
    (h : (ofFieldComparison base? written c field value).result = .ok d) :
    ∃ p v, field.fieldPath base? = .ok p ∧ value.operand written.name = .ok v ∧
      d = onField p c.key v := by
  obtain ⟨p, hp, h⟩ := Traced.result_andThen_eq_ok.mp h
  obtain ⟨v, hv, rfl⟩ := Traced.result_map_eq_ok.mp h
  rw [Traced.result_path] at hp
  rw [Traced.result_lift] at hv
  exact ⟨p, v, hp, hv, rfl⟩

theorem paths_ofFieldComparison {written c : Comparison} {field : Node} {p : FieldPath}
    (hp : field.fieldPath base? = .ok p) (value : Node) :
    (ofFieldComparison base? written c field value).paths = [p] := by
  have hpath : (Traced.path base? field).result = .ok p := by rw [Traced.result_path, hp]
  rw [ofFieldComparison, Traced.paths_andThen hpath, Traced.paths_path hp]
  rfl

theorem ofComparison_identifier_left (c : Comparison) (name : String) {n : Node}
    (hn : n.kind ≠ .identifier) :
    ofComparison o base? c (.identifier name) n =
      ofFieldComparison base? c c (.identifier name) n := by
  cases n with
  | identifier => exact absurd rfl hn
  | _ => rfl

theorem ofComparison_identifier_right (c : Comparison) (name : String) {n : Node}
    (hn : n.kind ≠ .identifier) :
    ofComparison o base? c n (.identifier name) =
      ofFieldComparison base? c c.swap (.identifier name) n := by
  cases n with
  | identifier => exact absurd rfl hn
  | _ => rfl

/-- A comparison without a field compares a call with a truth value. -/
theorem ofComparison_without_field {c : Comparison} {l r : Node} (hl : l.kind ≠ .identifier)
    (hr : r.kind ≠ .identifier) {d : Document}
    (h : (ofComparison o base? c l r).result = .ok d) :
    (∃ name args b, l = .call name args ∧ r = .literal (.boolean b)) ∨
      ∃ name args b, r = .call name args ∧ l = .literal (.boolean b) := by
  have hboolean {name : String} {args : List Node} {lit : Literal}
      (h : (ofCallComparison o base? c name args lit).result = .ok d) :
      ∃ b, lit = .boolean b := by
    cases lit with
    | boolean b => exact ⟨b, rfl⟩
    | _ => cases h
  unfold ofComparison at h
  split at h
  · obtain ⟨b, rfl⟩ := hboolean h
    exact .inl ⟨_, _, b, rfl, rfl⟩
  · obtain ⟨b, rfl⟩ := hboolean h
    exact .inr ⟨_, _, b, rfl, rfl⟩
  · exact absurd rfl hl
  · exact absurd rfl hl
  · exact absurd rfl hr
  · cases h

/-! ## Constants -/

theorem ofConstant_eq_ok {n : Node} {d : Document} (h : ofConstant n = .ok d) :
    (n = .literal (.boolean true) ∧ d = .empty) ∨
      (n = .literal (.boolean false) ∧ d = never) := by
  unfold ofConstant at h
  split at h
  · cases h
  · rename_i hl
    cases h
    exact .inl ⟨Node.eq_literal_of_literal? hl (Literal.neg?_ne_boolean · _), rfl⟩
  · rename_i hl
    cases h
    exact .inr ⟨Node.eq_literal_of_literal? hl (Literal.neg?_ne_boolean · _), rfl⟩
  · cases h
  · cases h

/-! ## Expressions -/

/-- The expression has the condition `d`, and the fields `ps` are looked up for it. -/
inductive Yields (o : Options) (base? : Option FieldPath) : Node → Document → List FieldPath → Prop
  | always : Yields o base? (.literal (.boolean true)) .empty []
  | never : Yields o base? (.literal (.boolean false)) never []
  | field {name : String} {p : FieldPath} (hp : (Node.identifier name).fieldPath base? = .ok p) :
      Yields o base? (.identifier name) (onField p "$eq" (.bool true)) [p]
  | call {name : String} {args : List Node} {d : Document}
      (h : (ofCall o base? name args).result = .ok d) :
      Yields o base? (.call name args) d (ofCall o base? name args).paths
  | callTruth {c : Comparison} {name : String} {args : List Node} {b : Bool} {d : Document}
      (h : (ofCallComparison o base? c name args (.boolean b)).result = .ok d) :
      Yields o base? (.binary (.comparison c) (.call name args) (.literal (.boolean b))) d
        (ofCallComparison o base? c name args (.boolean b)).paths
  | truthCall {c : Comparison} {name : String} {args : List Node} {b : Bool} {d : Document}
      (h : (ofCallComparison o base? c name args (.boolean b)).result = .ok d) :
      Yields o base? (.binary (.comparison c) (.literal (.boolean b)) (.call name args)) d
        (ofCallComparison o base? c name args (.boolean b)).paths
  | fields (c : Comparison) {l r : String} {p q : FieldPath}
      (hp : (Node.identifier l).fieldPath base? = .ok p)
      (hq : (Node.identifier r).fieldPath base? = .ok q) :
      Yields o base? (.binary (.comparison c) (.identifier l) (.identifier r))
        (betweenFields c p q) [p, q]
  | fieldValue {c : Comparison} {name : String} {value : Node} {p : FieldPath} {v : Value}
      (hp : (Node.identifier name).fieldPath base? = .ok p) (hv : value.operand c.name = .ok v) :
      Yields o base? (.binary (.comparison c) (.identifier name) value) (onField p c.key v) [p]
  /-- The condition starts with the field, so the comparison is turned round. -/
  | valueField {c : Comparison} {name : String} {value : Node} {p : FieldPath} {v : Value}
      (hp : (Node.identifier name).fieldPath base? = .ok p) (hv : value.operand c.name = .ok v) :
      Yields o base? (.binary (.comparison c) value (.identifier name)) (onField p c.swap.key v) [p]
  | both {left right : Node} {a b : Document} {ps qs : List FieldPath}
      (ha : Yields o base? left a ps) (hb : Yields o base? right b qs) :
      Yields o base? (.binary .and left right) (both a b) (ps ++ qs)
  | either {left right : Node} {a b : Document} {ps qs : List FieldPath}
      (ha : Yields o base? left a ps) (hb : Yields o base? right b qs) :
      Yields o base? (.binary .or left right) (either a b) (ps ++ qs)
  | complement {operand : Node} {a : Document} {ps : List FieldPath}
      (ha : Yields o base? operand a ps) :
      Yields o base? (.unary .not operand) (complement a) ps

theorem yields_ofComparison {c : Comparison} {left right : Node}
    (h : (ofComparison o base? c left right).result = .ok d) :
    Yields o base? (.binary (.comparison c) left right) d
      (ofComparison o base? c left right).paths := by
  unfold ofComparison at h ⊢
  split at h
  · rename_i l
    cases l with
    | boolean b => exact .callTruth h
    | _ => cases h
  · rename_i l _ _
    cases l with
    | boolean b => exact .truthCall h
    | _ => cases h
  · obtain ⟨p, hp, h⟩ := Traced.result_andThen_eq_ok.mp h
    obtain ⟨q, hq, rfl⟩ := Traced.result_map_eq_ok.mp h
    rw [Traced.paths_andThen hp]
    rw [Traced.result_path] at hp hq
    rw [Traced.paths_path hp]
    show Yields o base? _ _ ([p] ++ (Traced.path base? _).paths)
    rw [Traced.paths_path hq]
    exact .fields c hp hq
  · obtain ⟨p, v, hp, hv, rfl⟩ := ofFieldComparison_eq_ok h
    rw [paths_ofFieldComparison hp]
    exact .fieldValue hp hv
  · obtain ⟨p, v, hp, hv, rfl⟩ := ofFieldComparison_eq_ok h
    rw [paths_ofFieldComparison hp]
    exact .valueField hp hv
  · cases h

/-- **An expression that has a condition yields it.** -/
theorem yields_ofNode (e : Node) (h : (ofNode o base? e).result = .ok d) :
    Yields o base? e d (ofNode o base? e).paths := by
  induction e using ofNode.induct generalizing d with
  | case1 left right ihl ihr =>
    rw [ofNode] at h ⊢
    obtain ⟨a, ha, h⟩ := Traced.result_andThen_eq_ok.mp h
    obtain ⟨b, hb, rfl⟩ := Traced.result_map_eq_ok.mp h
    rw [Traced.paths_andThen ha]
    exact .both (ihl ha) (ihr hb)
  | case2 left right ihl ihr =>
    rw [ofNode] at h ⊢
    obtain ⟨a, ha, h⟩ := Traced.result_andThen_eq_ok.mp h
    obtain ⟨b, hb, rfl⟩ := Traced.result_map_eq_ok.mp h
    rw [Traced.paths_andThen ha]
    exact .either (ihl ha) (ihr hb)
  | case3 c left right => exact yields_ofComparison h
  | case4 operand ih =>
    rw [ofNode] at h ⊢
    obtain ⟨a, ha, rfl⟩ := Traced.result_map_eq_ok.mp h
    exact .complement (ih ha)
  | case5 operand =>
    -- No sign makes a truth value.
    rcases ofConstant_eq_ok h with ⟨hn, -⟩ | ⟨hn, -⟩ <;> cases hn
  | case6 l =>
    rcases ofConstant_eq_ok h with ⟨hl, rfl⟩ | ⟨hl, rfl⟩
    · cases hl
      exact .always
    · cases hl
      exact .never
  | case7 name args => exact .call h
  | case8 name =>
    rw [ofNode] at h ⊢
    obtain ⟨p, hp, rfl⟩ := Traced.result_map_eq_ok.mp h
    rw [Traced.result_path] at hp
    show Yields o base? _ _ (Traced.path base? _).paths
    rw [Traced.paths_path hp]
    exact .field hp
  | case9 n =>
    -- The clauses of a query are no expressions.
    rw [ofNode] at h
    · cases h
    all_goals assumption

end Condition

end EntityQuery
