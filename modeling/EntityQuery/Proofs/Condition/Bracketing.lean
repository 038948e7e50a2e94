import EntityQuery.Proofs.Condition.Gathered
import EntityQuery.Proofs.Condition.Grammar

/-!
# Bracketings

Expressions that are joined by one connective can be bracketed in many ways. Main statement: the
condition does not depend on the bracketing. A disjunction is one group with what each expression
contributes to it. A conjunction of conditions on single fields is flat unless two of them have a
field and an operator in common.
-/

namespace EntityQuery.Condition

open Node (IsField IsValue)

/-- A way to bracket expressions that stand in a row. -/
inductive Bracketing where
  | leaf (e : Node)
  | node (left right : Bracketing)

namespace Bracketing

/-- The expressions from left to right. -/
def leaves : Bracketing → List Node
  | leaf e => [e]
  | node left right => left.leaves ++ right.leaves

/-- The expressions joined by a connective. -/
def expression (op : BinaryOperator) : Bracketing → Node
  | leaf e => e
  | node left right => .binary op (left.expression op) (right.expression op)

end Bracketing

/-- The conditions that expressions have, in their order. -/
def conditions (o : Options) (base? : Option FieldPath) (es : List Node) : List Document :=
  es.filterMap fun e => (ofNode o base? e).result.toOption

/-- What a condition contributes to a disjunction: its alternatives if it is nothing but a
disjunction, and itself otherwise. -/
def alternatives (d : Document) : List Value :=
  match d.entries with
  | [("$or", .array items)] => items
  | _ => [.document d]

/-- A condition on a single field. -/
inductive IsFieldCondition : Node → Prop
  | field {n : Node} (h : IsField n) : IsFieldCondition n
  | fieldValue {c : Comparison} {field value : Node} (hf : IsField field) (hv : IsValue value) :
      IsFieldCondition (.binary (.comparison c) field value)
  | valueField {c : Comparison} {value field : Node} (hv : IsValue value) (hf : IsField field) :
      IsFieldCondition (.binary (.comparison c) value field)
  | call {name : String} {args : List Node} (h : IsCall name args) :
      IsFieldCondition (.call name args)

variable {o : Options} {base? : Option FieldPath}

theorem conditions_append (es es' : List Node) :
    conditions o base? (es ++ es') = conditions o base? es ++ conditions o base? es' :=
  List.filterMap_append

theorem conditions_singleton {e : Node} {d : Document} (h : (ofNode o base? e).result = .ok d) :
    conditions o base? [e] = [d] := by
  simp [conditions, h, Except.toOption]

/-- What the conditions of expressions require of fields, in their order. -/
def required (o : Options) (base? : Option FieldPath) (es : List Node) : List Requirement :=
  (conditions o base? es).flatMap requirements

theorem required_append (es es' : List Node) :
    required o base? (es ++ es') = required o base? es ++ required o base? es' := by
  rw [required, conditions_append, List.flatMap_append]
  rfl

/-! ## Disjunctions -/

theorem alternatives_eq_members (d : Document) : alternatives d = members "$or" d := by
  rw [members_eq]
  unfold alternatives
  split
  · rename_i items hentries
    rw [groupItems?, hentries]
    rfl
  · -- Any other document is an alternative itself, since it is no group.
    rename_i hentries
    cases h : groupItems? "$or" d with
    | none => rfl
    | some items =>
      have hsingle := congrArg Document.entries (groupItems?_eq_some.mp h)
      exact (hentries items hsingle).elim

theorem alternatives_either (a b : Document) :
    alternatives (either a b) = alternatives a ++ alternatives b := by
  simp only [alternatives_eq_members]
  rfl

/-- A bracketing contributes to a disjunction what its expressions do. -/
theorem exists_disjunction {t : Bracketing}
    (h : ∀ e ∈ t.leaves, ∃ d, (ofNode o base? e).result = .ok d) :
    ∃ d, (ofNode o base? (t.expression .or)).result = .ok d ∧
      alternatives d = (conditions o base? t.leaves).flatMap alternatives := by
  induction t with
  | leaf e =>
    obtain ⟨d, hd⟩ := h e (List.mem_singleton_self e)
    refine ⟨d, hd, ?_⟩
    rw [Bracketing.leaves, conditions_singleton hd, List.flatMap_singleton]
  | node left right ihl ihr =>
    rw [Bracketing.leaves, List.forall_mem_append] at h
    obtain ⟨a, ha, ha'⟩ := ihl h.1
    obtain ⟨b, hb, hb'⟩ := ihr h.2
    refine ⟨either a b, result_or ha hb, ?_⟩
    rw [alternatives_either, ha', hb', Bracketing.leaves, conditions_append, List.flatMap_append]

/-! ## Conditions on single fields -/

theorem exists_requirement_onField (p : FieldPath) {key : String} (v : Value)
    (hkey : isOperatorKey key = true) (hgroup : isGroupKey key = false) :
    ∃ r : Requirement, r.IsPlain ∧ onField p key v = gather [r] := by
  refine ⟨⟨p.dotted, .single key v⟩, ⟨p.isOperatorKey_dotted, isOperators_single hkey, ?_⟩, ?_⟩
  · intro k hk
    rw [List.mem_singleton.mp hk, hgroup]
  · rw [gather_singleton]
    rfl

theorem exists_requirement_comparison (p : FieldPath) (c : Comparison) (v : Value) :
    ∃ r : Requirement, r.IsPlain ∧ onField p c.key v = gather [r] := by
  refine exists_requirement_onField p v (isOperatorKey_key c) ?_
  cases c <;> decide +kernel

theorem exists_requirement_onText (o : Options) (p : FieldPath) (m : TextSearch) (text : String) :
    ∃ r : Requirement, r.IsPlain ∧ onText o p m text = gather [r] := by
  have hregex : isOperatorKey "$regex" = true ∧ isGroupKey "$regex" = false := by decide +kernel
  have hoptions : isOperatorKey "$options" = true ∧ isGroupKey "$options" = false := by
    decide +kernel
  refine ⟨⟨p.dotted, ⟨[("$regex", .string (m.pattern text))] ++
    if o.ignoreCase then [("$options", .string "i")] else []⟩⟩,
    ⟨p.isOperatorKey_dotted, ?_, ?_⟩, ?_⟩
  · cases o.ignoreCase <;>
      simp [Document.isOperators, Document.isEmpty, Document.keys, hregex, hoptions]
  · cases o.ignoreCase <;> simp [Document.keys, hregex, hoptions]
  · rw [gather_singleton]
    rfl

theorem IsFieldCondition.isPredicate {e : Node} (h : IsFieldCondition e) : IsPredicate e := by
  cases h with
  | field h => exact .field h
  | fieldValue hf hv => exact .comparison (.fieldValue hf hv)
  | valueField hv hf => exact .comparison (.valueField hv hf)
  | call h => exact .call h

/-- A condition on a single field is one requirement. -/
theorem IsFieldCondition.exists_requirement {e : Node} (h : IsFieldCondition e) (o : Options)
    (base? : Option FieldPath) :
    ∃ r : Requirement, r.IsPlain ∧ (ofNode o base? e).result = .ok (gather [r]) := by
  -- There is a condition by the grammar, and the way it was found tells its form.
  have hcondition : ∃ d, (ofNode o base? e).result = .ok d :=
    exists_ofNode_of_isPredicate h.isPredicate
  obtain ⟨d, hd⟩ := hcondition
  suffices hr : ∃ r : Requirement, r.IsPlain ∧ d = gather [r] by
    obtain ⟨r, hr, rfl⟩ := hr
    exact ⟨r, hr, hd⟩
  cases h with
  | field h =>
    cases h
    obtain ⟨p, -, rfl⟩ := Traced.result_map_eq_ok.mp hd
    exact exists_requirement_comparison p .eq (.bool true)
  | fieldValue hf hv =>
    cases hf
    rw [ofNode, ofComparison_identifier_left _ _ hv.kind_ne_identifier] at hd
    obtain ⟨p, v, -, -, rfl⟩ := ofFieldComparison_eq_ok hd
    exact exists_requirement_comparison p _ v
  | valueField hv hf =>
    cases hf
    rw [ofNode, ofComparison_identifier_right _ _ hv.kind_ne_identifier] at hd
    obtain ⟨p, v, -, -, rfl⟩ := ofFieldComparison_eq_ok hd
    exact exists_requirement_comparison p _ v
  | call h =>
    obtain ⟨_, _, p, -, -, -, ⟨m, text, -, rfl⟩ | ⟨vs, -, -, -, rfl⟩⟩ := ofCall_eq_ok hd
    · exact exists_requirement_onText o p m text
    · exact exists_requirement_onField p (.array vs) (by decide +kernel) (by decide +kernel)

/-! ## Conjunctions -/

/-- What an expression that is always true or on a single field requires. -/
theorem exists_requirements {e : Node} (h : e = .literal (.boolean true) ∨ IsFieldCondition e)
    (o : Options) (base? : Option FieldPath) :
    ∃ rs, (∀ r ∈ rs, r.IsPlain) ∧ (ofNode o base? e).result = .ok (gather rs) ∧
      required o base? [e] = rs := by
  rcases h with rfl | h
  · exact ⟨[], by simp, rfl, rfl⟩
  · obtain ⟨r, hr, hresult⟩ := h.exists_requirement o base?
    refine ⟨[r], by simpa using hr, hresult, ?_⟩
    rw [required, conditions_singleton hresult, List.flatMap_singleton,
      requirements_gather_singleton]

theorem isPlain_of_mem_required {es : List Node}
    (h : ∀ e ∈ es, e = .literal (.boolean true) ∨ IsFieldCondition e) :
    ∀ r ∈ required o base? es, r.IsPlain := by
  induction es with
  | nil => simp [required, conditions]
  | cons e es ih =>
    obtain ⟨he, hes⟩ := List.forall_mem_cons.mp h
    obtain ⟨rs, hrs, -, hrequired⟩ := exists_requirements he o base?
    rw [← List.singleton_append, required_append, List.forall_mem_append, hrequired]
    exact ⟨hrs, ih hes⟩

/-- A bracketing gathers what its expressions require. -/
theorem result_conjunction {t : Bracketing}
    (h : ∀ e ∈ t.leaves, e = .literal (.boolean true) ∨ IsFieldCondition e)
    (hcompatible : Compatible (required o base? t.leaves)) :
    (ofNode o base? (t.expression .and)).result = .ok (gather (required o base? t.leaves)) := by
  induction t with
  | leaf e =>
    have he := h e (List.mem_singleton_self e)
    obtain ⟨rs, -, hresult, hrequired⟩ := exists_requirements he o base?
    rw [Bracketing.leaves, hrequired]
    exact hresult
  | node left right ihl ihr =>
    rw [Bracketing.leaves, List.forall_mem_append] at h
    rw [Bracketing.leaves, required_append] at hcompatible ⊢
    rw [← both_gather hcompatible]
    exact result_and (ihl h.1 hcompatible.left) (ihr h.2 hcompatible.right)

/-! ## Bracketings -/

/-- **The condition does not depend on the bracketing.** However expressions that have conditions
are bracketed, their disjunction is the one group with what each of them contributes, in their
order. However truth values that are true and conditions on single fields are bracketed, their
conjunction is flat, with one entry for each field where the field comes first and with its
operators in their order, if no two of them have a field and an operator in common. -/
theorem result_of_bracketing (o : Options) (base? : Option FieldPath) (es : List Node) :
    ((∀ e ∈ es, ∃ d, (ofNode o base? e).result = .ok d) →
      ∀ left right : Bracketing, left.leaves ++ right.leaves = es →
        (ofNode o base? ((Bracketing.node left right).expression .or)).result =
          .ok (.single "$or" (.array ((conditions o base? es).flatMap alternatives)))) ∧
      ((∀ e ∈ es, e = .literal (.boolean true) ∨ IsFieldCondition e) →
        (required o base? es).Pairwise Requirement.Apart →
          IsFlat (gather (required o base? es)) ∧
            ∀ t : Bracketing, t.leaves = es →
              (ofNode o base? (t.expression .and)).result =
                .ok (gather (required o base? es))) := by
  constructor
  · rintro h left right rfl
    rw [List.forall_mem_append] at h
    obtain ⟨a, ha, ha'⟩ := exists_disjunction h.1
    obtain ⟨b, hb, hb'⟩ := exists_disjunction h.2
    rw [conditions_append, List.flatMap_append, ← ha', ← hb', alternatives_eq_members,
      alternatives_eq_members]
    exact result_or ha hb
  · intro h hapart
    have hplain : ∀ r ∈ required o base? es, r.IsPlain := isPlain_of_mem_required h
    refine ⟨isFlat_gather hplain, ?_⟩
    rintro t rfl
    exact result_conjunction h ⟨hplain, hapart⟩

/-- Two bounds on one age with a text between them, and a disjunction among the expressions of
another one. -/
theorem result_of_bracketing_below_tenant :
    let tenant : FieldPath := ⟨["Tenant"], by decide, by decide +kernel⟩
    let o : Options := { ignoreCase := true }
    let age : Node := .identifier "Age"
    let adult : Node := .binary (.comparison .gt) age (.literal (.integer 18))
    let called : Node := .call "contains" [.identifier "Name", .literal (.string "b")]
    let bounded : Node := .binary (.comparison .ge) (.literal (.integer 65)) age
    let es := [adult, .literal (.boolean true), called, bounded]
    let es' := [adult, .binary .or called bounded, .unary .not called]
    (gather (required o (some tenant) es)).keys = ["Tenant.Age", "Tenant.Name"] ∧
      (operatorsOn "Tenant.Age" (required o (some tenant) es)).map Prod.fst = ["$gt", "$lte"] ∧
      IsFlat (gather (required o (some tenant) es)) ∧
      (∀ t : Bracketing, t.leaves = es →
        (ofNode o (some tenant) (t.expression .and)).result =
          .ok (gather (required o (some tenant) es))) ∧
      ((conditions o (some tenant) es').flatMap alternatives).length = 4 ∧
      ∀ left right : Bracketing, left.leaves ++ right.leaves = es' →
        (ofNode o (some tenant) ((Bracketing.node left right).expression .or)).result =
          .ok (.single "$or" (.array ((conditions o (some tenant) es').flatMap alternatives))) := by
  intro tenant o age adult called bounded es es'
  have hage : IsField age := .identifier (by decide +kernel)
  have hname : IsField (.identifier "Name") := .identifier (by decide +kernel)
  have hvalue (n : Int64) : IsValue (.literal (.integer n)) :=
    ⟨.integer n, .literal _, .integer n⟩
  have hadult : IsFieldCondition adult := .fieldValue hage (hvalue 18)
  have hcalled : IsFieldCondition called := .call (.contains hname "b")
  have hbounded : IsFieldCondition bounded := .valueField (hvalue 65) hage
  have hes : ∀ e ∈ es, e = .literal (.boolean true) ∨ IsFieldCondition e := by
    simp [es, hadult, hcalled, hbounded]
  have hapart : (required o (some tenant) es).Pairwise Requirement.Apart := by
    decide +kernel
  have hes' : ∀ e ∈ es', ∃ d, (ofNode o (some tenant) e).result = .ok d := by
    have hpredicate : ∀ e ∈ es', IsPredicate e := by
      simp [es', hadult.isPredicate, IsPredicate.or hcalled.isPredicate hbounded.isPredicate,
        IsPredicate.not hcalled.isPredicate]
    exact fun e he => exists_ofNode_of_isPredicate (hpredicate e he)
  have hflat := (result_of_bracketing o (some tenant) es).2 hes hapart
  refine ⟨by decide +kernel, by decide +kernel, hflat.1, hflat.2, by decide +kernel, ?_⟩
  exact (result_of_bracketing o (some tenant) es').1 hes'

end EntityQuery.Condition
