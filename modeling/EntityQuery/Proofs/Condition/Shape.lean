import EntityQuery.Proofs.Condition.Built
import EntityQuery.Proofs.Condition.Rewriting
import Mathlib.Data.List.Forall2

/-!
# The shape of conditions

The shape of a condition is what is left of it without the values that its fields are compared with
and the texts that are searched in them. Expressions that differ only in the literals that stand for
these give conditions of one shape: no literal, whatever it is, can take part in how a condition is
put together.
-/

namespace EntityQuery

namespace Condition

/-! ## What is left without values -/

/-- Nothing is left of a value that holds no others. -/
def blankLeaf : Value → Value
  | .array items => .array items
  | .document d => .document d
  | _ => .null

/-- What is left of what stands beside an operator on a field: the number of values to choose from,
and that there is a pattern. -/
def blankOperand (operator : String) (v : Value) : Value :=
  if (Comparison.ofKey? operator).isSome then blankLeaf v
  else match operator, v with
    | "$in", .array items => .array (items.map blankLeaf)
    | "$regex", .string _ => .string ""
    | _, v => v

def Rewriting.blank : Rewriting where
  name := id
  operand := blankOperand
  expression := id
  name_injective h := h
  isOperatorKey_name h := h

/-- The shape of a condition: all its keys, groups and expressions, but no values and no texts. -/
def shape (d : Document) : Document :=
  Rewriting.blank.document d

theorem shape_both (a b : Document) : shape (both a b) = both (shape a) (shape b) :=
  Rewriting.blank.document_both a b

theorem shape_either (a b : Document) : shape (either a b) = either (shape a) (shape b) :=
  Rewriting.blank.document_either a b

theorem shape_complement (d : Document) : shape (complement d) = complement (shape d) :=
  Rewriting.blank.document_complement d

theorem shape_onField (p : FieldPath) (key : String) (v : Value) :
    shape (onField p key v) = onField p key (blankOperand key v) := by
  have hname : isOperatorKey p.dotted = false := p.isOperatorKey_dotted
  rw [onField, shape, Rewriting.document_single, Rewriting.key_of_field _ hname,
    Rewriting.value_of_field _ hname]
  rfl

theorem shape_onText (o : Options) (p : FieldPath) (m : TextSearch) (text : String) :
    shape (onText o p m text) =
      .single p.dotted (.document ⟨("$regex", .string "") ::
        if o.ignoreCase then [("$options", .string "i")] else []⟩) := by
  have hname : isOperatorKey p.dotted = false := p.isOperatorKey_dotted
  rw [onText, shape, Rewriting.document_single, Rewriting.key_of_field _ hname,
    Rewriting.value_of_field _ hname]
  cases o.ignoreCase <;> rfl

/-! ## Values of literals -/

/-- The value of a literal holds no other values. -/
theorem blankLeaf_toValue {operator : String} {l : Literal} {v : Value}
    (h : l.toValue operator = .ok v) : blankLeaf v = .null := by
  unfold Literal.toValue at h
  split at h
  all_goals try (cases h; rfl)
  all_goals
    split at h
    · cases h
      rfl
    · cases h

theorem blankLeaf_operand {operator : String} {n : Node} {v : Value}
    (h : n.operand operator = .ok v) : blankLeaf v = .null := by
  unfold Node.operand at h
  split at h
  · cases h
  · exact blankLeaf_toValue h
  · cases h

theorem map_blankLeaf_operands {operator : String} {ns : List Node} {vs : List Value}
    (h : Node.operands operator ns = .ok vs) :
    vs.map blankLeaf = List.replicate ns.length .null := by
  rw [← length_operands h, ← List.map_const']
  refine List.map_congr_left fun v hv => ?_
  obtain ⟨n, hn⟩ := exists_operand_of_mem h hv
  exact blankLeaf_operand hn

end Condition

/-! ## Expressions that differ in literals -/

/-- The operands are equal, but for the literal that they stand for. -/
inductive Node.SameOperand : Node → Node → Prop
  | refl (n : Node) : SameOperand n n
  | literal (l m : Literal) : SameOperand (.literal l) (.literal m)
  | negate {n m : Node} (h : SameOperand n m) :
      SameOperand (.unary .negate n) (.unary .negate m)

/-- The arguments of a call are equal, but for the literals behind the first. -/
inductive Node.SameArguments : List Node → List Node → Prop
  | refl (args : List Node) : SameArguments args args
  | behind (field : Node) {ns ms : List Node} (h : List.Forall₂ SameOperand ns ms) :
      SameArguments (field :: ns) (field :: ms)

/-- The sides of a comparison are equal, but for the literal that they stand for or the literals that
they have as arguments. -/
inductive Node.SameSide : Node → Node → Prop
  | operand {n m : Node} (h : SameOperand n m) : SameSide n m
  | call (name : String) {args args' : List Node} (h : SameArguments args args') :
      SameSide (.call name args) (.call name args')

/-- If the first node is a truth value, then the second is the same one. -/
def Node.KeepsTruth (n m : Node) : Prop :=
  ∀ b, n = .literal (.boolean b) → m = n

/-- The expressions are equal, but for the literals that fields are compared with, that are members
of a list of values, or that are looked for in a field. A truth value that is an expression of its
own or is compared with a call is the same in both. -/
inductive Node.SameButLiterals : Node → Node → Prop
  | refl (e : Node) : SameButLiterals e e
  | connective {op : BinaryOperator} (hop : op = .and ∨ op = .or) {l l' r r' : Node}
      (hl : SameButLiterals l l') (hr : SameButLiterals r r') :
      SameButLiterals (.binary op l r) (.binary op l' r')
  | not {e e' : Node} (h : SameButLiterals e e') :
      SameButLiterals (.unary .not e) (.unary .not e')
  | call (name : String) {args args' : List Node} (h : SameArguments args args') :
      SameButLiterals (.call name args) (.call name args')
  | comparison (c : Comparison) {l l' r r' : Node} (hl : SameSide l l') (hr : SameSide r r')
      (hlcall : l.kind = .call → KeepsTruth r r') (hrcall : r.kind = .call → KeepsTruth l l') :
      SameButLiterals (.binary (.comparison c) l r) (.binary (.comparison c) l' r')

namespace Node.SameSide

variable {n m : Node}

theorem kind_eq (h : SameSide n m) : m.kind = n.kind := by
  cases h with
  | operand h => cases h <;> rfl
  | call => rfl

theorem eq_of_identifier {name : String} (h : SameSide (.identifier name) m) :
    m = .identifier name := by
  cases h with
  | operand h =>
    cases h
    rfl

theorem of_call {name : String} {args : List Node} (h : SameSide (.call name args) m) :
    ∃ args', m = .call name args' ∧ SameArguments args args' := by
  cases h with
  | operand h =>
    cases h
    exact ⟨args, rfl, .refl args⟩
  | call _ h => exact ⟨_, rfl, h⟩

end Node.SameSide

namespace Condition

open Node (SameOperand SameArguments SameSide KeepsTruth SameButLiterals)

variable {o : Options} {base? : Option FieldPath}

/-- If both give a condition, these are of one shape and read the same fields. -/
def SameForm (x y : Traced Document) : Prop :=
  ∀ d e, x.result = .ok d → y.result = .ok e → shape d = shape e ∧ x.paths = y.paths

theorem SameForm.refl (x : Traced Document) : SameForm x x := by
  intro d e hd he
  rw [hd] at he
  exact ⟨congrArg shape (Except.ok.inj he), rfl⟩

theorem SameForm.complement {x y : Traced Document} (h : SameForm x y) :
    SameForm (x.map complement) (y.map complement) := by
  intro d e hd he
  obtain ⟨a, ha, rfl⟩ := Traced.result_map_eq_ok.mp hd
  obtain ⟨b, hb, rfl⟩ := Traced.result_map_eq_ok.mp he
  obtain ⟨hshape, hpaths⟩ := h a b ha hb
  rw [shape_complement, shape_complement, hshape]
  exact ⟨rfl, hpaths⟩

/-- A combination that depends on nothing but the shapes of its sides. -/
theorem SameForm.combine {f : Document → Document → Document}
    (hf : ∀ a b, shape (f a b) = f (shape a) (shape b)) {x x' y y' : Traced Document}
    (hx : SameForm x x') (hy : SameForm y y') :
    SameForm (x.andThen fun a => y.map (f a)) (x'.andThen fun a => y'.map (f a)) := by
  intro d e hd he
  obtain ⟨a, ha, hd⟩ := Traced.result_andThen_eq_ok.mp hd
  obtain ⟨b, hb, rfl⟩ := Traced.result_map_eq_ok.mp hd
  obtain ⟨a', ha', he⟩ := Traced.result_andThen_eq_ok.mp he
  obtain ⟨b', hb', rfl⟩ := Traced.result_map_eq_ok.mp he
  obtain ⟨hshapea, hpathsx⟩ := hx a a' ha ha'
  obtain ⟨hshapeb, hpathsy⟩ := hy b b' hb hb'
  rw [hf, hf, hshapea, hshapeb, Traced.paths_andThen ha, Traced.paths_andThen ha', hpathsx]
  exact ⟨rfl, congrArg (x'.paths ++ ·) hpathsy⟩

/-! ## Calls and comparisons -/

/-- The shape of a call is told by its function, its field and the number of its arguments. -/
theorem sameForm_call {name : String} {args args' : List Node} (h : SameArguments args args') :
    SameForm (ofCall o base? name args) (ofCall o base? name args') := by
  obtain _ | ⟨field, hargs⟩ := h
  · exact .refl _
  intro d e hd he
  obtain ⟨_, ns, p, heq, hp, hpaths, hcases⟩ := ofCall_eq_ok hd
  obtain ⟨_, ms, q, heq', hq, hpaths', hcases'⟩ := ofCall_eq_ok he
  cases heq
  cases heq'
  rw [hp] at hq
  cases hq
  refine ⟨?_, by rw [hpaths, hpaths']⟩
  -- Both calls have one name, so they look for texts both or for values both.
  rcases hcases with ⟨m, text, hm, rfl⟩ | ⟨vs, hin, hvs, -, rfl⟩
  · rcases hcases' with ⟨m', text', hm', rfl⟩ | ⟨vs', hin', -, -, -⟩
    · rw [shape_onText, shape_onText]
    · rw [hm] at hin'
      cases hin'
  · rcases hcases' with ⟨m', text', hm', -⟩ | ⟨vs', -, hvs', -, rfl⟩
    · rw [hin] at hm'
      cases hm'
    · have hblank (ws : List Value) :
          blankOperand "$in" (.array ws) = .array (ws.map blankLeaf) := rfl
      rw [shape_onField, shape_onField, hblank, hblank, map_blankLeaf_operands hvs,
        map_blankLeaf_operands hvs', hargs.length_eq]

theorem sameForm_callComparison (c : Comparison) (name : String) (l : Literal)
    {args args' : List Node} (h : SameArguments args args') :
    SameForm (ofCallComparison o base? c name args l)
      (ofCallComparison o base? c name args' l) := by
  rcases ofCallComparison_cases c name l with hcall | hcomplement | ⟨e, hfail⟩
  · rw [hcall, hcall]
    exact sameForm_call h
  · rw [hcomplement, hcomplement]
    exact (sameForm_call h).complement
  · rw [hfail, hfail]
    exact .refl _

/-- A field is compared with whatever value in one form. -/
theorem sameForm_fieldComparison (written c : Comparison) (field n m : Node) :
    SameForm (ofFieldComparison base? written c field n)
      (ofFieldComparison base? written c field m) := by
  intro d e hd he
  obtain ⟨p, v, hp, hv, rfl⟩ := ofFieldComparison_eq_ok hd
  obtain ⟨q, w, hq, hw, rfl⟩ := ofFieldComparison_eq_ok he
  rw [hp] at hq
  cases hq
  have hblank {u : Value} (hu : blankLeaf u = .null) : blankOperand c.key u = .null := by
    unfold blankOperand
    rw [if_pos (by rw [Comparison.ofKey?_key]; rfl), hu]
  rw [shape_onField, shape_onField, hblank (blankLeaf_operand hv), hblank (blankLeaf_operand hw),
    paths_ofFieldComparison hp, paths_ofFieldComparison hp]
  exact ⟨rfl, rfl⟩

/-- With a field on one side, the other side is an operand. -/
theorem sameForm_comparison (c : Comparison) {l l' r r' : Node} (hl : SameSide l l')
    (hr : SameSide r r') (hlcall : l.kind = .call → KeepsTruth r r')
    (hrcall : r.kind = .call → KeepsTruth l l') :
    SameForm (ofComparison o base? c l r) (ofComparison o base? c l' r') := by
  by_cases hlid : l.kind = .identifier
  · obtain ⟨name, rfl⟩ := Node.eq_identifier_of_kind hlid
    obtain rfl := hl.eq_of_identifier
    by_cases hrid : r.kind = .identifier
    · obtain ⟨name', rfl⟩ := Node.eq_identifier_of_kind hrid
      obtain rfl := hr.eq_of_identifier
      exact .refl _
    · rw [ofComparison_identifier_left c name hrid,
        ofComparison_identifier_left c name (hr.kind_eq ▸ hrid)]
      exact sameForm_fieldComparison c c _ r r'
  · by_cases hrid : r.kind = .identifier
    · obtain ⟨name, rfl⟩ := Node.eq_identifier_of_kind hrid
      obtain rfl := hr.eq_of_identifier
      rw [ofComparison_identifier_right c name hlid,
        ofComparison_identifier_right c name (hl.kind_eq ▸ hlid)]
      exact sameForm_fieldComparison c c.swap _ l l'
    · intro d e hd he
      -- Without a field the truth value beside the call is kept, and only arguments differ.
      rcases ofComparison_without_field hlid hrid hd with
        ⟨name, args, b, rfl, rfl⟩ | ⟨name, args, b, rfl, rfl⟩
      · obtain rfl := hlcall rfl b rfl
        obtain ⟨args', rfl, hargs⟩ := hl.of_call
        exact sameForm_callComparison c name _ hargs d e hd he
      · obtain rfl := hrcall rfl b rfl
        obtain ⟨args', rfl, hargs⟩ := hr.of_call
        exact sameForm_callComparison c name _ hargs d e hd he

/-! ## Expressions -/

theorem sameForm_ofNode {e e' : Node} (h : SameButLiterals e e') :
    SameForm (ofNode o base? e) (ofNode o base? e') := by
  induction h with
  | refl e => exact .refl _
  | connective hop _ _ ihl ihr =>
    rcases hop with rfl | rfl
    · exact ihl.combine shape_both ihr
    · exact ihl.combine shape_either ihr
  | not _ ih => exact ih.complement
  | call name hargs => exact sameForm_call hargs
  | comparison c hl hr hlcall hrcall => exact sameForm_comparison c hl hr hlcall hrcall

/-- **Literals cannot change the shape of a condition.** If two expressions that are equal but for
literals both have a condition, then the conditions are equal but for values and texts, and they
were found by resolving the same fields. -/
theorem shape_eq_of_sameButLiterals {e e' : Node} (h : SameButLiterals e e') {d d' : Document}
    (hd : (ofNode o base? e).result = .ok d) (hd' : (ofNode o base? e').result = .ok d') :
    shape d = shape d' ∧ (ofNode o base? e).paths = (ofNode o base? e').paths :=
  sameForm_ofNode h d d' hd hd'

/-- A text that reads like an operator, and a number where there was a text. -/
theorem shape_eq_of_searches_below_agent :
    let agent : FieldPath := ⟨["Agent"], by decide, by decide +kernel⟩
    let o : Options := { ignoreCase := true }
    let e (text : Literal) (age : Node) (city : Literal) : Node :=
      .binary .and
        (.binary (.comparison .eq) (.call "contains" [.identifier "Name", .literal text])
          (.literal (.boolean false)))
        (.binary .or (.binary (.comparison .lt) age (.identifier "Age"))
          (.call "in" [.identifier "City", .literal city, .literal .null]))
    let e₁ := e (.string "a") (.unary .negate (.literal (.integer 1))) (.string "x")
    let e₂ := e (.string "$or") (.unary .negate (.literal (.integer 18))) (.integer 7)
    ∃ d d', (ofNode o (some agent) e₁).result = .ok d ∧
      (ofNode o (some agent) e₂).result = .ok d' ∧ d.keys = ["$nor", "$or"] ∧
      shape d = shape d' ∧
      (ofNode o (some agent) e₁).paths = (ofNode o (some agent) e₂).paths := by
  intro agent o e e₁ e₂
  have hsame : SameButLiterals e₁ e₂ :=
    .connective (.inl rfl)
      (.comparison .eq (.call _ (.behind _ (.cons (.literal _ _) .nil))) (.operand (.refl _))
        (fun _ _ _ => rfl) (fun h => by cases h))
      (.connective (.inr rfl)
        (.comparison .lt (.operand (.negate (.literal _ _))) (.operand (.refl _))
          (fun h => by cases h) (fun h => by cases h))
        (.call _ (.behind _ (.cons (.literal _ _) (.cons (.refl _) .nil)))))
  have hkeys : (ofNode o (some agent) e₁).result.toOption.map Document.keys =
      some ["$nor", "$or"] := by
    decide +kernel
  have hsome : (ofNode o (some agent) e₂).result.toOption.isSome = true := by
    decide +kernel
  cases h : (ofNode o (some agent) e₁).result with
  | error =>
    rw [h] at hkeys
    cases hkeys
  | ok d => cases h' : (ofNode o (some agent) e₂).result with
    | error =>
      rw [h'] at hsome
      cases hsome
    | ok d' =>
      rw [h] at hkeys
      exact ⟨d, d', rfl, rfl, Option.some.inj hkeys, shape_eq_of_sameButLiterals hsame h h'⟩

end Condition

end EntityQuery
