import EntityQuery.Proofs.Condition.Meaning
import EntityQuery.Proofs.Condition.Yields
import EntityQuery.Proofs.FieldPath.Dotted

/-!
# Expressions and their conditions agree

The condition that an expression is compiled to says what the expression says. The proof goes along
the expression; it carries the fact that a modifier stands only beside a pattern, for which reason
operators from both sides can share a field.
-/

namespace EntityQuery.Condition

open Interpretation

/-! ## Modifiers -/

/-- A modifier stands only beside the pattern that it modifies. -/
def Modified (d : Document) : Prop :=
  d.find? "$options" ≠ none → d.find? "$regex" ≠ none

theorem find?_append (a b : Document) (key : String) :
    Document.find? ⟨a.entries ++ b.entries⟩ key = (a.find? key).or (b.find? key) :=
  List.lookup_append

theorem find?_eq_none_of_disjoint {a b : Document} (h : DisjointOperators a b) {key : String}
    (hb : b.find? key ≠ none) : a.find? key = none := by
  obtain ⟨v, hv⟩ := Option.ne_none_iff_exists'.mp hb
  obtain ⟨before, after, hsplit, -⟩ := List.lookup_eq_some_iff.mp hv
  have hmem : key ∈ b.keys := by simp [Document.keys, hsplit]
  have hnot := List.any_eq_false.mp h key hmem
  simpa [Document.contains] using hnot

theorem find?_ne_none_of_mem {d : Document} {key : String} {v : Value}
    (h : (key, v) ∈ d.entries) : d.find? key ≠ none := by
  intro hnone
  simpa using List.lookup_eq_none_iff.mp hnone (key, v) h

/-- Beside the operators of another set a pattern keeps its modifier, or its lack of one. -/
theorem find?_options_append {a b : Document} (hb : Modified b) (h : DisjointOperators a b)
    (hregex : a.find? "$regex" ≠ none) :
    Document.find? ⟨a.entries ++ b.entries⟩ "$options" = a.find? "$options" := by
  rw [find?_append]
  by_cases hopt : b.find? "$options" = none
  · rw [hopt, Option.or_none]
  · exact absurd (find?_eq_none_of_disjoint h (hb hopt)) hregex

theorem find?_options_append' {a b : Document} (ha : Modified a) (h : DisjointOperators a b)
    (hregex : b.find? "$regex" ≠ none) :
    Document.find? ⟨a.entries ++ b.entries⟩ "$options" = b.find? "$options" := by
  rw [find?_append]
  by_cases hopt : a.find? "$options" = none
  · rw [hopt, Option.none_or]
  · exact absurd (find?_eq_none_of_disjoint h hregex) (ha hopt)

theorem modified_append {a b : Document} (ha : Modified a) (hb : Modified b) :
    Modified ⟨a.entries ++ b.entries⟩ := by
  intro hopt
  rw [find?_append] at hopt ⊢
  -- The modifier comes from one of the two sets, and its pattern from the same one.
  cases hao : a.find? "$options" with
  | some v =>
    have hregex := ha (by simp [hao])
    cases har : a.find? "$regex" with
    | none => exact absurd har hregex
    | some w => simp
  | none =>
    rw [hao, Option.none_or] at hopt
    have hregex := hb hopt
    cases hbr : b.find? "$regex" with
    | none => exact absurd hbr hregex
    | some w => cases a.find? "$regex" <;> simp

theorem modified_single {key : String} {v : Value} (h : key ≠ "$options") :
    Modified (.single key v) := by
  intro hopt
  have hne : ("$options" == key) = false := beq_eq_false_iff_ne.mpr h.symm
  simp [Document.find?, Document.single, List.lookup_cons, hne] at hopt

/-- An operator that is no pattern does not look at those beside it. -/
theorem operatorHolds_congr (I : Interpretation) (name : String)
    {operators operators' : List (String × Value)} {key : String} (v : Value)
    (h : key = "$regex" → operators.lookup "$options" = operators'.lookup "$options") :
    I.operatorHolds name operators key v = I.operatorHolds name operators' key v := by
  unfold operatorHolds
  split
  · rfl
  · split
    · rfl
    · have hig : ignoresCase? operators = ignoresCase? operators' := by
        unfold ignoresCase?
        rw [h rfl]
      rw [hig]
    · rfl
    · rfl

theorem separates_modified (I : Interpretation) : I.reading.Separates Modified where
  append ha hb _ := modified_append ha hb
  field {a b} name ha hb hdisj := by
    have hleft : ∀ e ∈ a.entries,
        I.operatorHolds name (a.entries ++ b.entries) e.1 e.2 =
          I.operatorHolds name a.entries e.1 e.2 := by
      intro e he
      apply operatorHolds_congr
      intro hkey
      exact find?_options_append hb hdisj (find?_ne_none_of_mem (v := e.2) (hkey ▸ he))
    have hright : ∀ e ∈ b.entries,
        I.operatorHolds name (a.entries ++ b.entries) e.1 e.2 =
          I.operatorHolds name b.entries e.1 e.2 := by
      intro e he
      apply operatorHolds_congr
      intro hkey
      exact find?_options_append' ha hdisj (find?_ne_none_of_mem (v := e.2) (hkey ▸ he))
    show List.all _ _ = (List.all _ _ && List.all _ _)
    rw [List.map_append, List.all_append, List.map_congr_left hleft, List.map_congr_left hright]

/-! ## Conditions on fields -/

variable (I : Interpretation) (o : Options) (base? : Option FieldPath)

/-- The condition says what is to be said, and it can share its fields. -/
def Says (said? : Option Bool) (d : Document) : Prop :=
  said? = some (I.reading.holds d) ∧ OnFields Modified d

theorem Says.exists_eq_some {I : Interpretation} {said? : Option Bool} {d : Document}
    (h : Says I said? d) : ∃ s, said? = some s ∧ Says I (some s) d :=
  ⟨_, h.1, rfl, h.2⟩

theorem onFields_single {kind : Document → Prop} {name : String} {m : Document} (h : kind m) :
    OnFields kind (.single name (.document m)) := by
  intro name' m' hmem _ _
  cases List.mem_singleton.mp hmem
  exact h

theorem onFields_operator {kind : Document → Prop} {key : String} {v : Value}
    (h : isOperatorKey key = true) : OnFields kind (.single key v) := by
  intro name m hmem hname _
  cases List.mem_singleton.mp hmem
  exact absurd h (Bool.eq_false_iff.mp hname)

theorem holds_operators (p : FieldPath) {m : Document} (hm : m.isOperators = true) :
    I.reading.holds (.single p.dotted (.document m)) =
      (m.entries.map fun e => I.operatorHolds p.dotted m.entries e.1 e.2).all id := by
  rw [Reading.holds_single, Reading.entryHolds_operators p.isOperatorKey_dotted hm]
  rfl

theorem isOperators_single {key : String} {v : Value} (h : isOperatorKey key = true) :
    (Document.single key v).isOperators = true := by
  simp [Document.isOperators, Document.single, Document.isEmpty, Document.keys, h]

theorem isOperatorKey_key (c : Comparison) : isOperatorKey c.key = true := by
  cases c <;> decide +kernel

theorem holds_comparison (c : Comparison) (p : FieldPath) (v : Value) :
    I.reading.holds (onField p c.key v) = I.compare c (.field p.dotted) (.value v) := by
  rw [onField, holds_operators I p (isOperators_single (isOperatorKey_key c))]
  simp [Document.single, operatorHolds]

theorem says_comparison (c : Comparison) (p : FieldPath) (v : Value) :
    Says I (some (I.compare c (.field p.dotted) (.value v))) (onField p c.key v) := by
  refine ⟨by rw [holds_comparison], onFields_single (modified_single ?_)⟩
  cases c <;> decide

theorem says_membership (p : FieldPath) (vs : List Value) :
    Says I (some (I.isIn p.dotted vs)) (onField p "$in" (.array vs)) := by
  refine ⟨?_, onFields_single (modified_single (by decide))⟩
  rw [onField, holds_operators I p (isOperators_single (by decide +kernel))]
  simp [Document.single, operatorHolds, Comparison.ofKey?]

theorem isOperators_pattern (pattern : String) (modifier : List (String × Value))
    (h : modifier = [] ∨ modifier = [("$options", .string "i")]) :
    Document.isOperators ⟨("$regex", .string pattern) :: modifier⟩ = true := by
  have hregex : isOperatorKey "$regex" = true := by decide +kernel
  have hoptions : isOperatorKey "$options" = true := by decide +kernel
  rcases h with rfl | rfl <;>
    simp [Document.isOperators, Document.isEmpty, Document.keys, hregex, hoptions]

theorem modified_pattern (pattern : String) (modifier : List (String × Value)) :
    Modified ⟨("$regex", .string pattern) :: modifier⟩ :=
  fun _ => find?_ne_none_of_mem List.mem_cons_self

theorem says_text (p : FieldPath) (m : TextSearch) (text : String) :
    Says I (some (I.search m o.ignoreCase p.dotted text)) (onText o p m text) := by
  refine ⟨?_, onFields_single (modified_pattern _ _)⟩
  cases hcase : o.ignoreCase with
  | false =>
    have hops := isOperators_pattern (m.pattern text) [] (.inl rfl)
    have hholds := holds_operators I p hops
    simp only [onText, hcase, Bool.false_eq_true, if_false, List.append_nil]
    rw [hholds]
    simp [operatorHolds, Comparison.ofKey?, Pattern.read?_pattern, ignoresCase?, List.lookup_cons]
  | true =>
    have hops := isOperators_pattern (m.pattern text) [("$options", .string "i")] (.inr rfl)
    have hholds := holds_operators I p hops
    simp only [onText, hcase, if_true, List.cons_append, List.nil_append]
    rw [hholds]
    simp [operatorHolds, Comparison.ofKey?, Pattern.read?_pattern, ignoresCase?, List.lookup_cons]

/-! ## Conditions on no field -/

theorem referenced?_reference (p : FieldPath) : referenced? p.reference = some p.dotted := by
  have h : p.reference.toList = '$' :: p.dotted.toList := by
    rw [FieldPath.reference, String.toList_append]
    rfl
  simp [referenced?, h]

theorem says_betweenFields (c : Comparison) (p q : FieldPath) :
    Says I (some (I.compare c (.field p.dotted) (.field q.dotted))) (betweenFields c p q) := by
  refine ⟨?_, onFields_operator (by decide +kernel)⟩
  have hkey : (!isOperatorKey "$expr") = false := by decide +kernel
  rw [betweenFields, Reading.holds_single, Reading.entryHolds, if_neg (by simp [hkey])]
  simp [reading, expressionHolds, Document.single, referenced?_reference]

theorem says_always : Says I (some true) .empty :=
  ⟨by rw [I.reading.holds_of_isEmpty rfl], fun _ _ h => nomatch h⟩

theorem says_never : Says I (some false) never := by
  refine ⟨?_, onFields_operator (by decide +kernel)⟩
  rw [never, Reading.holds_single]
  simp [Reading.entryHolds, reading, expressionHolds]

/-! ## Connectives -/

variable {I}

theorem says_both {s t : Bool} {a b : Document} (ha : Says I (some s) a) (hb : Says I (some t) b) :
    Says I (some (s && t)) (both a b) := by
  obtain ⟨hholds, hfields⟩ := Reading.holds_both (separates_modified I) ha.2 hb.2
  exact ⟨by rw [hholds, Option.some.inj ha.1, Option.some.inj hb.1], hfields⟩

theorem says_either {s t : Bool} {a b : Document} (ha : Says I (some s) a)
    (hb : Says I (some t) b) : Says I (some (s || t)) (either a b) :=
  ⟨by rw [Reading.holds_either, Option.some.inj ha.1, Option.some.inj hb.1],
    Reading.onFields_group _ _ _⟩

theorem says_complement {s : Bool} {d : Document} (h : Says I (some s) d) :
    Says I (some (!s)) (complement d) :=
  ⟨by rw [Reading.holds_complement, Option.some.inj h.1], onFields_operator (by decide +kernel)⟩

/-! ## Calls and comparisons -/

theorem fieldName?_eq_some {base? : Option FieldPath} {n : Node} {p : FieldPath}
    (h : n.fieldPath base? = .ok p) : fieldName? base? n = some p.dotted := by
  rw [fieldName?, h]
  rfl

variable {o base?}

theorem callTruth?_text {name : String} {m : TextSearch} (hname : function? name = some (.text m))
    {field : Node} {p : FieldPath} (hp : field.fieldPath base? = .ok p) (text : String) :
    I.callTruth? o base? name [field, .literal (.string text)] =
      some (I.search m o.ignoreCase p.dotted text) := by
  rcases function?_eq_some hname with ⟨rfl, hm⟩ | ⟨rfl, hm⟩ | ⟨rfl, hm⟩ | ⟨-, hm⟩
  · cases hm
    rw [callTruth?, fieldName?_eq_some hp, Option.map_some]
  · cases hm
    rw [callTruth?, fieldName?_eq_some hp, Option.map_some]
  · cases hm
    rw [callTruth?, fieldName?_eq_some hp, Option.map_some]
  · cases hm

theorem says_call {name : String} {args : List Node} {d : Document}
    (h : (ofCall o base? name args).result = .ok d) :
    Says I (I.callTruth? o base? name args) d := by
  unfold ofCall at h
  split at h
  · -- One of the three text functions.
    rename_i m hname
    obtain ⟨field, text, p, rfl, hp, rfl⟩ := ofTextCall_eq_ok h
    rw [callTruth?_text hname hp]
    exact says_text I o p m text
  · -- The function `in`, which no other name stands for.
    rename_i hname
    obtain ⟨field, value, values, p, vs, rfl, hp, hvs, rfl⟩ := ofMembership_eq_ok h
    have hin : name = "in" := by
      rcases function?_eq_some hname with ⟨-, hf⟩ | ⟨-, hf⟩ | ⟨-, hf⟩ | ⟨hin, -⟩
      · cases hf
      · cases hf
      · cases hf
      · exact hin
    subst hin
    have hsays := says_membership I p vs
    simpa [callTruth?, fieldName?_eq_some hp, hvs, Except.toOption] using hsays
  · cases h

/-- The comparison of a call with a truth value says what its condition says. -/
theorem says_callComparison {c : Comparison} {name : String} {args : List Node} {b : Bool}
    {d : Document} (h : (ofCallComparison o base? c name args (.boolean b)).result = .ok d) :
    Says I (I.callComparisonTruth? o base? c name args b) d := by
  have hcall : ∀ {d}, (ofCall o base? name args).result = .ok d →
      ∃ s, I.callTruth? o base? name args = some s ∧ Says I (some s) d := by
    intro d hd
    exact (says_call hd).exists_eq_some
  have hcomplement : ∀ {d}, ((ofCall o base? name args).map complement).result = .ok d →
      ∃ s, I.callTruth? o base? name args = some s ∧ Says I (some (!s)) d := by
    intro d hd
    obtain ⟨a, ha, rfl⟩ := Traced.result_map_eq_ok.mp hd
    obtain ⟨s, hs, hsays⟩ := hcall ha
    exact ⟨s, hs, says_complement hsays⟩
  -- Equality with true is the call, and so is inequality with false; nothing else is defined.
  unfold ofCallComparison at h
  cases c with
  | eq =>
    cases b with
    | true =>
      obtain ⟨s, hs, hsays⟩ := hcall h
      simpa [callComparisonTruth?, hs] using hsays
    | false =>
      obtain ⟨s, hs, hsays⟩ := hcomplement h
      simpa [callComparisonTruth?, hs] using hsays
  | ne =>
    cases b with
    | true =>
      obtain ⟨s, hs, hsays⟩ := hcomplement h
      simpa [callComparisonTruth?, hs] using hsays
    | false =>
      obtain ⟨s, hs, hsays⟩ := hcall h
      simpa [callComparisonTruth?, hs] using hsays
  | gt => cases h
  | ge => cases h
  | lt => cases h
  | le => cases h

theorem operand?_field {name : String} {p : FieldPath}
    (hp : (Node.identifier name).fieldPath base? = .ok p) (c : Comparison) :
    operand? base? c (.identifier name) = some (.field p.dotted) := by
  rw [operand?, fieldName?_eq_some hp]
  rfl

theorem operand?_value {c : Comparison} {n : Node} {v : Value} (h : n.operand c.name = .ok v) :
    operand? base? c n = some (.value v) := by
  unfold operand?
  split
  · exact absurd rfl (Node.ne_identifier_of_operand h _)
  · rw [h]
    rfl

/-- Neither side of a comparison of operands is a call. -/
theorem comparisonTruth?_of_operands {c : Comparison} {left right : Node} {a b : Operand}
    (hl : operand? base? c left = some a) (hr : operand? base? c right = some b) :
    I.comparisonTruth? o base? c left right = some (I.compare c a b) := by
  have hcall : ∀ name args, operand? base? c (.call name args) = none := fun _ _ => rfl
  unfold comparisonTruth?
  split
  · rw [hcall] at hl
    cases hl
  · rw [hcall] at hr
    cases hr
  · rw [hl, hr]
    rfl

/-! ## Expressions -/

theorem Yields.agrees {e : Node} {d : Document} {ps : List FieldPath}
    (h : Yields o base? e d ps) : Says I (I.truth? o base? e) d := by
  induction h with
  | always => exact says_always I
  | never => exact says_never I
  | field hp =>
    rw [truth?, fieldName?_eq_some hp]
    exact says_comparison I .eq _ (.bool true)
  | call h => exact says_call h
  | callTruth h | truthCall h => exact says_callComparison h
  | fields c hp hq =>
    rw [truth?, comparisonTruth?_of_operands (operand?_field hp c) (operand?_field hq c)]
    exact says_betweenFields I c _ _
  | fieldValue hp hv =>
    rw [truth?, comparisonTruth?_of_operands (operand?_field hp _) (operand?_value hv)]
    exact says_comparison I _ _ _
  | valueField hp hv =>
    rw [truth?, comparisonTruth?_of_operands (operand?_value hv) (operand?_field hp _),
      ← I.compare_swap]
    exact says_comparison I _ _ _
  | both _ _ iha ihb =>
    obtain ⟨s, hs, hsays⟩ := iha.exists_eq_some
    obtain ⟨t, ht, htays⟩ := ihb.exists_eq_some
    rw [truth?, hs, ht]
    exact says_both hsays htays
  | either _ _ iha ihb =>
    obtain ⟨s, hs, hsays⟩ := iha.exists_eq_some
    obtain ⟨t, ht, htays⟩ := ihb.exists_eq_some
    rw [truth?, hs, ht]
    exact says_either hsays htays
  | complement _ ih =>
    obtain ⟨s, hs, hsays⟩ := ih.exists_eq_some
    rw [truth?, hs]
    exact says_complement hsays

theorem says_expression (e : Node) {d : Document} (h : (ofNode o base? e).result = .ok d) :
    Says I (I.truth? o base? e) d :=
  (yields_ofNode e h).agrees

/-- **An expression and its condition say the same**, below any base, under any options and whatever
the atoms say. -/
theorem truth?_eq_holds (e : Node) {d : Document} (h : (ofNode o base? e).result = .ok d) :
    I.truth? o base? e = some (I.reading.holds d) :=
  (says_expression e h).1

/-- A conjunction whose sides share no field, below an association: the turned comparison, the text
with its modifier and the negated comparison of two fields stand side by side. -/
theorem truth?_eq_holds_below_seller :
    let seller : FieldPath := ⟨["Seller"], by decide, by decide +kernel⟩
    let o : Options := { ignoreCase := true }
    let e : Node :=
      .binary .and
        (.binary .and
          (.binary (.comparison .lt) (.literal (.integer 18)) (.identifier "Age"))
          (.call "contains" [.identifier "Name", .literal (.string "a.b")]))
        (.unary .not (.binary (.comparison .ge) (.identifier "Age") (.identifier "Rank")))
    ∃ d, (ofNode o (some seller) e).result = .ok d ∧
      d.keys = ["Seller.Age", "Seller.Name", "$nor"] ∧
      ∀ I : Interpretation, I.truth? o (some seller) e = some (I.reading.holds d) := by
  intro seller o e
  have hkeys : (ofNode o (some seller) e).result.toOption.map Document.keys =
      some ["Seller.Age", "Seller.Name", "$nor"] := by
    decide +kernel
  cases h : (ofNode o (some seller) e).result with
  | error =>
    rw [h] at hkeys
    cases hkeys
  | ok d =>
    rw [h] at hkeys
    exact ⟨d, rfl, Option.some.inj hkeys, fun I => truth?_eq_holds e h⟩

end EntityQuery.Condition
