import EntityQuery.Proofs.Condition.Agreement
import EntityQuery.Proofs.Condition.Rewriting
import EntityQuery.Proofs.FieldPath.Below

/-!
# Conditions taken below a path

An expression on an association has the condition that it would have on the records themselves, with
every field taken below the path of the association. Which entries of a condition are merged depends
on whether their fields are equal, and this is no other below a path.
-/

namespace EntityQuery

namespace Condition

/-! ## Conditions -/

/-- A reference is taken below the path; there is nothing to take in other values. -/
def referenceBelow (p : FieldPath) : Value → Value
  | .string s =>
    match Interpretation.referenced? s with
    | some name => .string ("$" ++ p.nameBelow name)
    | none => .string s
  | v => v

/-- The fields that are compared in an aggregation expression. -/
def expressionBelow (p : FieldPath) : Value → Value
  | .document ⟨[(operator, .array operands)]⟩ =>
    .document (.single operator (.array (operands.map (referenceBelow p))))
  | v => v

/-- All fields are taken below a path, and nothing else is changed. -/
def Rewriting.below (p : FieldPath) : Rewriting where
  name := p.nameBelow
  operand _ v := v
  expression := expressionBelow p
  name_injective := FieldPath.nameBelow_injective
  isOperatorKey_name _ := p.isOperatorKey_nameBelow _

/-- The condition with all its fields taken below a path. -/
def below (p : FieldPath) (d : Document) : Document :=
  (Rewriting.below p).document d

theorem operators_below (p : FieldPath) (d : Document) : (Rewriting.below p).operators d = d := by
  obtain ⟨entries⟩ := d
  show Document.mk (entries.map fun e => (e.1, e.2)) = ⟨entries⟩
  rw [List.map_id']

theorem value_below_of_field (p : FieldPath) {k : String} (h : isOperatorKey k = false)
    (v : Value) : (Rewriting.below p).value k v = v := by
  rw [Rewriting.value_of_field _ h]
  cases v with
  | document d => exact congrArg Value.document (operators_below p d)
  | _ => rfl

/-- What is said of one field is said of that field below the path. -/
theorem below_single_dotted (p q : FieldPath) (v : Value) :
    below p (.single q.dotted v) = .single (p ++ q).dotted v := by
  have hq : isOperatorKey q.dotted = false := q.isOperatorKey_dotted
  -- The name of a field is the only thing here that knows of the path.
  rw [below, Rewriting.document_single, Rewriting.key_of_field _ hq, value_below_of_field p hq,
    FieldPath.dotted_append]
  rfl

theorem below_onField (p q : FieldPath) (key : String) (v : Value) :
    below p (onField q key v) = onField (p ++ q) key v :=
  below_single_dotted p q _

theorem below_onText (p q : FieldPath) (o : Options) (m : TextSearch) (text : String) :
    below p (onText o q m text) = onText o (p ++ q) m text :=
  below_single_dotted p q _

theorem referenceBelow_reference (p q : FieldPath) :
    referenceBelow p (.string q.reference) = .string (p ++ q).reference := by
  rw [FieldPath.reference_append]
  simp only [referenceBelow, referenced?_reference]

theorem below_betweenFields (p q r : FieldPath) (c : Comparison) :
    below p (betweenFields c q r) = betweenFields c (p ++ q) (p ++ r) := by
  show Document.single "$expr" (.document (.single c.key (.array
    [referenceBelow p (.string q.reference), referenceBelow p (.string r.reference)]))) = _
  rw [referenceBelow_reference, referenceBelow_reference]
  rfl

/-- A document that says something of each of some fields. -/
theorem below_ofEntries_dotted {α : Type} (p : FieldPath) (path : α → FieldPath)
    (v : α → Value) (as : List α) :
    below p (.ofEntries (as.map fun a => ((path a).dotted, v a))) =
      .ofEntries (as.map fun a => ((p ++ path a).dotted, v a)) := by
  rw [below, Rewriting.document_ofEntries, List.map_map]
  congr 1
  apply List.map_congr_left
  intro a _
  have hfield : isOperatorKey (path a).dotted = false := (path a).isOperatorKey_dotted
  show ((Rewriting.below p).key _, (Rewriting.below p).value _ _) = _
  rw [Rewriting.key_of_field _ hfield, value_below_of_field p hfield, FieldPath.dotted_append]
  rfl

theorem below_both (p : FieldPath) (a b : Document) :
    below p (both a b) = both (below p a) (below p b) :=
  (Rewriting.below p).document_both a b

theorem below_either (p : FieldPath) (a b : Document) :
    below p (either a b) = either (below p a) (below p b) :=
  (Rewriting.below p).document_either a b

theorem below_complement (p : FieldPath) (d : Document) :
    below p (complement d) = complement (below p d) :=
  (Rewriting.below p).document_complement d

end Condition

/-! ## Traced answers -/

namespace Traced

variable {α β α' β' : Type}

/-- The answer with all its fields taken below a path. -/
def below (p : FieldPath) (f : α → α') (x : Traced α) : Traced α' :=
  ⟨x.paths.map (p ++ ·), x.result.map f⟩

variable {p : FieldPath} {f : α → α'} {g : β → β'} {x : Traced α}

theorem andThen_below {k : α → Traced β} {k' : α' → Traced β'}
    (h : ∀ a, k' (f a) = (k a).below p g) :
    (x.below p f).andThen k' = (x.andThen k).below p g := by
  obtain ⟨paths, result⟩ := x
  cases result with
  | error e => rfl
  | ok a =>
    show Traced.mk (paths.map (p ++ ·) ++ (k' (f a)).paths) (k' (f a)).result = _
    rw [h a]
    show _ = Traced.mk ((paths ++ (k a).paths).map (p ++ ·)) _
    rw [List.map_append]
    rfl

theorem map_below {k : α → β} {k' : α' → β'} (h : ∀ a, k' (f a) = g (k a)) :
    (x.below p f).map k' = (x.map k).below p g := by
  obtain ⟨paths, result⟩ := x
  cases result with
  | error e => rfl
  | ok a => exact congrArg (fun b => Traced.mk _ (.ok b)) (h a)

/-- Without a field there is nothing to take below. -/
theorem lift_map_below {r : Except CompileError α} {k k' : α → β} {g : β → β}
    (h : ∀ a, k' a = g (k a)) : (lift r).map k' = ((lift r).map k).below p g := by
  cases r with
  | error e => rfl
  | ok a => exact congrArg (fun b => Traced.mk _ (.ok b)) (h a)

theorem path_baseBelow (p : FieldPath) (base? : Option FieldPath) (n : Node) :
    path (some (p.baseBelow base?)) n = (path base? n).below p (p ++ ·) := by
  rw [path, Node.fieldPath_baseBelow, path]
  cases n.fieldPath base? <;> rfl

end Traced

/-! ## Expressions -/

namespace Condition

variable {o : Options} (p : FieldPath) (base? : Option FieldPath)

theorem ofCall_below (name : String) (args : List Node) :
    ofCall o (some (p.baseBelow base?)) name args = (ofCall o base? name args).below p (below p) := by
  -- The arguments behind the field are read without a look at the base.
  unfold ofCall
  split
  · rename_i m _
    unfold ofTextCall
    split
    · rw [Traced.path_baseBelow]
      exact Traced.andThen_below fun q =>
        Traced.lift_map_below fun text => (below_onText p q o m text).symm
    · rfl
  · unfold ofMembership
    split
    · rw [Traced.path_baseBelow]
      exact Traced.andThen_below fun q =>
        Traced.lift_map_below fun vs => (below_onField p q "$in" (.array vs)).symm
    · rfl
  · rfl

theorem ofCallComparison_below (c : Comparison) (name : String) (args : List Node) (l : Literal) :
    ofCallComparison o (some (p.baseBelow base?)) c name args l =
      (ofCallComparison o base? c name args l).below p (below p) := by
  rcases ofCallComparison_cases c name l with hcall | hcomplement | ⟨e, hfail⟩
  · rw [hcall, hcall]
    exact ofCall_below p base? name args
  · rw [hcomplement, hcomplement, ofCall_below]
    exact Traced.map_below fun d => (below_complement p d).symm
  · rw [hfail, hfail]
    rfl

theorem ofFieldComparison_below (written c : Comparison) (field value : Node) :
    ofFieldComparison (some (p.baseBelow base?)) written c field value =
      (ofFieldComparison base? written c field value).below p (below p) := by
  rw [ofFieldComparison, Traced.path_baseBelow]
  exact Traced.andThen_below fun q =>
    Traced.lift_map_below fun v => (below_onField p q c.key v).symm

theorem ofComparison_below (c : Comparison) (left right : Node) :
    ofComparison o (some (p.baseBelow base?)) c left right =
      (ofComparison o base? c left right).below p (below p) := by
  unfold ofComparison
  split
  · exact ofCallComparison_below p base? c _ _ _
  · exact ofCallComparison_below p base? c _ _ _
  · rw [Traced.path_baseBelow, Traced.path_baseBelow]
    exact Traced.andThen_below fun q =>
      Traced.map_below fun r => (below_betweenFields p q r c).symm
  · exact ofFieldComparison_below p base? c c _ _
  · exact ofFieldComparison_below p base? c c.swap _ _
  · rfl

/-- The condition of a literal is about no field. -/
theorem ofConstant_below (n : Node) :
    Traced.lift (ofConstant n) = (Traced.lift (ofConstant n)).below p (below p) := by
  cases h : ofConstant n with
  | error e => rfl
  | ok d =>
    rcases ofConstant_eq_ok h with ⟨-, rfl⟩ | ⟨-, rfl⟩ <;> rfl

/-- **An expression below a path has its condition below that path**, or the same fault. -/
theorem ofNode_below (e : Node) :
    ofNode o (some (p.baseBelow base?)) e = (ofNode o base? e).below p (below p) := by
  induction e using ofNode.induct with
  | case1 left right ihl ihr =>
    rw [ofNode, ofNode, ihl, ihr]
    exact Traced.andThen_below fun a => Traced.map_below fun b => (below_both p a b).symm
  | case2 left right ihl ihr =>
    rw [ofNode, ofNode, ihl, ihr]
    exact Traced.andThen_below fun a => Traced.map_below fun b => (below_either p a b).symm
  | case3 c left right => exact ofComparison_below p base? c left right
  | case4 operand ih =>
    rw [ofNode, ofNode, ih]
    exact Traced.map_below fun d => (below_complement p d).symm
  | case5 operand => exact ofConstant_below p _
  | case6 l => exact ofConstant_below p _
  | case7 name args => exact ofCall_below p base? name args
  | case8 name =>
    rw [ofNode, ofNode, Traced.path_baseBelow]
    exact Traced.map_below fun q => (below_onField p q "$eq" (.bool true)).symm
  | case9 n =>
    -- The clauses of a query are no expressions.
    rw [ofNode, ofNode]
    · rfl
    all_goals assumption

end Condition

end EntityQuery
