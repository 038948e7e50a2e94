import EntityQuery.Proofs.Condition.Agreement

/-!
# How conditions are built

Every expression that can be compiled gives a condition of the few forms listed here, and the fields
that were resolved on the way are those of its parts, in their order. What all these forms share
therefore holds of every condition that is compiled.
-/

namespace EntityQuery.Condition

/-- The condition `d` is built from parts that read the fields `ps`. Each of the fields was named
below the base. -/
inductive Built (o : Options) (base? : Option FieldPath) : Document → List FieldPath → Prop
  | always : Built o base? .empty []
  | never : Built o base? never []
  | comparison {n : Node} {p : FieldPath} (hp : n.fieldPath base? = .ok p) (c : Comparison)
      (v : Value) : Built o base? (onField p c.key v) [p]
  | membership {n : Node} {p : FieldPath} (hp : n.fieldPath base? = .ok p) {vs : List Value}
      (hvs : vs ≠ []) : Built o base? (onField p "$in" (.array vs)) [p]
  | text {n : Node} {p : FieldPath} (hp : n.fieldPath base? = .ok p) (m : TextSearch)
      (text : String) : Built o base? (onText o p m text) [p]
  | fields {n n' : Node} {p q : FieldPath} (hp : n.fieldPath base? = .ok p)
      (hq : n'.fieldPath base? = .ok q) (c : Comparison) :
      Built o base? (betweenFields c p q) [p, q]
  | both {a b : Document} {ps qs : List FieldPath} (ha : Built o base? a ps)
      (hb : Built o base? b qs) : Built o base? (both a b) (ps ++ qs)
  | either {a b : Document} {ps qs : List FieldPath} (ha : Built o base? a ps)
      (hb : Built o base? b qs) : Built o base? (either a b) (ps ++ qs)
  | complement {d : Document} {ps : List FieldPath} (hd : Built o base? d ps) :
      Built o base? (complement d) ps

variable {o : Options} {base? : Option FieldPath} {d : Document}

theorem built_ofCall {name : String} {args : List Node}
    (h : (ofCall o base? name args).result = .ok d) :
    Built o base? d (ofCall o base? name args).paths := by
  obtain ⟨field, values, p, rfl, hp, hpaths, ⟨m, text, -, rfl⟩ | ⟨vs, -, hvs, hne, rfl⟩⟩ :=
    ofCall_eq_ok h
  · rw [hpaths]
    exact .text hp m text
  · rw [hpaths]
    refine .membership hp ?_
    rintro rfl
    exact hne (List.eq_nil_of_length_eq_zero (length_operands hvs).symm)

theorem built_ofCallComparison {c : Comparison} {name : String} {args : List Node} {l : Literal}
    (h : (ofCallComparison o base? c name args l).result = .ok d) :
    Built o base? d (ofCallComparison o base? c name args l).paths := by
  rcases ofCallComparison_cases c name l with hcall | hcomplement | ⟨e, hfail⟩
  · rw [hcall] at h ⊢
    exact built_ofCall h
  · rw [hcomplement] at h ⊢
    obtain ⟨a, ha, rfl⟩ := Traced.result_map_eq_ok.mp h
    exact .complement (built_ofCall ha)
  · rw [hfail] at h
    cases h

theorem Yields.built {e : Node} {ps : List FieldPath} (h : Yields o base? e d ps) :
    Built o base? d ps := by
  induction h with
  | always => exact .always
  | never => exact .never
  | field hp => exact .comparison hp .eq (.bool true)
  | call h => exact built_ofCall h
  | callTruth h | truthCall h => exact built_ofCallComparison h
  | fields c hp hq => exact .fields hp hq c
  | fieldValue hp | valueField hp => exact .comparison hp _ _
  | both _ _ iha ihb => exact .both iha ihb
  | either _ _ iha ihb => exact .either iha ihb
  | complement _ ih => exact .complement ih

/-- **Every condition that is compiled is built from its parts**, and its paths are the fields that
these read. -/
theorem built_ofNode (e : Node) (h : (ofNode o base? e).result = .ok d) :
    Built o base? d (ofNode o base? e).paths :=
  (yields_ofNode e h).built

end EntityQuery.Condition
