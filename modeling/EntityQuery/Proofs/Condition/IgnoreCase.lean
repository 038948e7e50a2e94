import EntityQuery.Proofs.Condition.Modifiers

/-!
# Expressions with and without regard to case

An expression is compiled to the same condition whether or not case is ignored, but for the modifiers:
these stand beside every pattern if case is ignored, and nowhere otherwise. A fault does not depend on
it at all.
-/

namespace EntityQuery

/-- The options under which nothing is added to a condition or to a join. -/
def Options.bare : Options where
  foreignField := ""
  unwind := false
  ignoreCase := false

namespace Condition

variable {o : Options} {base? : Option FieldPath} {a b d : Document}

/-! ## Modifiers beside patterns -/

theorem IsNormal.isModified (h : IsNormal o d) : d.IsModified o := by
  have hnot := h.not_mem_keys
  rw [Document.IsModified, if_neg fun hand => hnot.1 hand.1]
  exact Document.find?_eq_none_iff.mpr hnot.2

theorem IsOperatorSet.isModified (h : IsOperatorSet o d) : d.IsModified o := by
  rw [Document.IsModified]
  by_cases hmem : "$options" ∈ d.keys
  · rw [if_pos (h.modifier_iff.mp hmem)]
    have hsome : d.find? "$options" ≠ none := fun hnone => Document.find?_eq_none_iff.mp hnone hmem
    obtain ⟨v, hv⟩ := Option.ne_none_iff_exists'.mp hsome
    obtain ⟨before, after, hentries, -⟩ := Document.exists_append_of_lookup_eq_some hv
    have hoperand := h.isOperand "$options" v (by simp [hentries])
    generalize hkey : "$options" = key at hoperand
    cases hoperand with
    | comparison c => cases c <;> exact absurd hkey (by decide)
    | membership => exact absurd hkey (by decide)
    | pattern => exact absurd hkey (by decide)
    | modifier => exact hkey ▸ hv
  · rw [if_neg fun hand => hmem (h.modifier_iff.mpr hand)]
    exact Document.find?_eq_none_iff.mpr hmem

theorem isModified_single {key : String} {v : Value} (h : IsNormal o (.single key v))
    (hv : ∀ m ∈ v.documents, m.IsModified o) : IsModified o (.single key v) := by
  intro m hm
  rcases mem_documents.mp hm with rfl | ⟨e, he, hme⟩
  · exact h.isModified
  · cases List.mem_singleton.mp he
    exact hv m hme

/-- Operators beside which there are no further documents. -/
theorem isModified_operators {name : String} (h : IsNormal o (.single name (.document d)))
    (hd : IsOperatorSet o d) (hleaf : ∀ e ∈ d.entries, e.2.documents = []) :
    IsModified o (.single name (.document d)) := by
  refine isModified_single h fun m hm => ?_
  rw [Value.documents] at hm
  rcases mem_documents.mp hm with rfl | ⟨e, he, hme⟩
  · exact hd.isModified
  · rw [hleaf e he] at hme
    cases hme

theorem documents_of_mem_members {operator : String} {v : Value} (hv : v ∈ members operator d)
    {m : Document} (hm : m ∈ v.documents) : m ∈ d.documents := by
  rw [members_eq] at hv
  cases hitems : groupItems? operator d with
  | none =>
    rw [hitems] at hv
    cases List.mem_singleton.mp hv
    exact hm
  | some items =>
    rw [hitems] at hv
    obtain rfl := groupItems?_eq_some.mp hitems
    refine mem_documents.mpr (.inr ⟨_, List.mem_singleton_self _, ?_⟩)
    rw [Value.documents, itemsDocuments_eq]
    exact List.mem_flatMap.mpr ⟨v, hv, hm⟩

theorem isModified_group {operator : String} (h : IsNormal o (group operator a b))
    (ha : IsModified o a) (hb : IsModified o b) : IsModified o (group operator a b) := by
  refine isModified_single h fun m hm => ?_
  rw [Value.documents, itemsDocuments_eq] at hm
  obtain ⟨v, hv, hm⟩ := List.mem_flatMap.mp hm
  rcases List.mem_append.mp hv with hv | hv
  · exact ha m (documents_of_mem_members hv hm)
  · exact hb m (documents_of_mem_members hv hm)

theorem isModified_mergeEntry? {d' : Document} {key : String} {v : Value} (hd' : IsNormal o d')
    (hd : IsModified o d) (hv : ∀ m ∈ v.documents, m.IsModified o)
    (h : mergeEntry? d (key, v) = some d') : IsModified o d' := by
  intro m hm
  rcases mergeEntry?_eq_some h with ⟨-, rfl⟩ | ⟨before, a, b, after, rfl, hkey, -, -, -, rfl, rfl⟩
  · rcases mem_documents.mp hm with rfl | ⟨e, he, hme⟩
    · exact hd'.isModified
    rcases List.mem_append.mp he with he | he
    · exact hd m (mem_documents.mpr (.inr ⟨e, he, hme⟩))
    · cases List.mem_singleton.mp he
      exact hv m hme
  · rcases mem_documents.mp hm with rfl | ⟨e, he, hme⟩
    · exact hd'.isModified
    rcases List.mem_append.mp he with he | he
    · exact hd m (mem_documents.mpr (.inr ⟨e, List.mem_append_left _ he, hme⟩))
    rcases List.mem_cons.mp he with rfl | he
    · -- The operators that were put together, and what stands beside each of them.
      rw [Value.documents] at hme
      rcases mem_documents.mp hme with rfl | ⟨e, he, hme⟩
      · obtain ⟨-, hset⟩ := (hd'.entry (List.mem_append_right _ List.mem_cons_self)).isOperatorSet hkey
        exact hset.isModified
      rcases List.mem_append.mp he with he | he
      · refine hd m (mem_documents.mpr (.inr ⟨(key, .document a), by simp, ?_⟩))
        rw [Value.documents]
        exact mem_documents.mpr (.inr ⟨e, he, hme⟩)
      · refine hv m ?_
        rw [Value.documents]
        exact mem_documents.mpr (.inr ⟨e, he, hme⟩)
    · exact hd m (mem_documents.mpr (.inr ⟨e, by simp [he], hme⟩))

theorem isModified_both (ha : IsNormal o a) (hb : IsNormal o b) (hma : IsModified o a)
    (hmb : IsModified o b) : IsModified o (both a b) := by
  have hboth := ha.both hb
  rcases both_cases a b with ⟨-, h⟩ | ⟨-, h⟩ | h | h
  · rwa [h]
  · rwa [h]
  · rw [h] at hboth ⊢
    exact isModified_group hboth hma hmb
  · refine (merge?_induction (motive := fun _ c => IsNormal o c ∧ IsModified o c) h ⟨ha, hma⟩
      fun hmem hentry hc => ?_).2
    obtain ⟨hd, hmodified⟩ := hc
    have hnormal := hd.mergeEntry? (hb.entry hmem) hentry
    refine ⟨hnormal, isModified_mergeEntry? hnormal hmodified (fun m hm => ?_) hentry⟩
    exact hmb m (mem_documents.mpr (.inr ⟨_, hmem, hm⟩))

theorem isModified_complement (hd : IsNormal o d) (h : IsModified o d) :
    IsModified o (complement d) := by
  refine isModified_single hd.complement fun m hm => ?_
  rw [Value.documents, itemsDocuments_eq, List.flatMap_singleton, Value.documents] at hm
  exact h m hm

/-! ## The parts of conditions -/

/-- The value of a literal holds no documents. -/
theorem documents_of_blankLeaf {v : Value} (h : blankLeaf v = .null) :
    v.documents = [] ∧ v.withoutModifiers = v := by
  cases v with
  | array => cases h
  | document => cases h
  | _ => exact ⟨rfl, rfl⟩

theorem dotted_ne_regex (p : FieldPath) : p.dotted ≠ "$regex" := by
  intro h
  have hfield : isOperatorKey p.dotted = false := p.isOperatorKey_dotted
  rw [h] at hfield
  exact absurd hfield (by decide +kernel)

theorem withoutModifiers_onField (p : FieldPath) {key : String} (hkey : key ≠ "$regex") {v : Value}
    (hv : v.withoutModifiers = v) : (onField p key v).withoutModifiers = onField p key v := by
  rw [onField, withoutModifiers_single (dotted_ne_regex p), Value.withoutModifiers,
    withoutModifiers_single hkey, hv]

theorem withoutModifiers_onText (p : FieldPath) (m : TextSearch) (text : String) :
    (onText o p m text).withoutModifiers = onText .bare p m text := by
  rw [onText, withoutModifiers_single (dotted_ne_regex p), Value.withoutModifiers]
  cases o.ignoreCase <;>
    simp [Document.withoutModifiers, entriesWithoutModifiers, Value.withoutModifiers, dropModifier,
      onText, Options.bare]

theorem withoutModifiers_betweenFields (c : Comparison) (p q : FieldPath) :
    (betweenFields c p q).withoutModifiers = betweenFields c p q := by
  have hkey : c.key ≠ "$regex" := by cases c <;> decide
  rw [betweenFields, withoutModifiers_single (by decide), Value.withoutModifiers,
    withoutModifiers_single hkey]
  rfl

theorem isModified_onField (p : FieldPath) {key : String} {v : Value} (h : IsOperand key v)
    (hregex : key ≠ "$regex") (hoptions : key ≠ "$options") (hv : v.documents = []) :
    IsModified o (onField p key v) :=
  isModified_operators (isNormal_onField p h hregex hoptions)
    (isOperatorSet_single h hregex hoptions) fun e he => by
      cases List.mem_singleton.mp he
      exact hv

theorem isModified_onText (p : FieldPath) (m : TextSearch) (text : String) :
    IsModified o (onText o p m text) := by
  refine isModified_operators (isNormal_onText p m text) (isOperatorSet_pattern m text) ?_
  intro e he
  rcases List.mem_cons.mp he with rfl | he
  · rfl
  · split at he
    · cases List.mem_singleton.mp he
      rfl
    · cases he

theorem isModified_betweenFields (c : Comparison) (p q : FieldPath) :
    IsModified o (betweenFields c p q) := by
  refine isModified_single (isNormal_betweenFields c p q) fun m hm => ?_
  have hm : m = .single c.key (.array [.string p.reference, .string q.reference]) :=
    List.mem_singleton.mp hm
  have hkeys : m.keys = [c.key] := by
    rw [hm]
    rfl
  rw [Document.IsModified, if_neg, Document.find?_eq_none_iff, hkeys]
  · cases c <;> decide
  · rw [hkeys]
    cases c <;> exact fun h => absurd h.1 (by decide)

/-! ## Expressions -/

/-- Values hold no documents, so there is nothing to leave out of them. -/
theorem operands_withoutModifiers {operator : String} {ns : List Node} {vs : List Value}
    (h : Node.operands operator ns = .ok vs) :
    (Value.array vs).documents = [] ∧ (Value.array vs).withoutModifiers = .array vs := by
  have hblank : ∀ v ∈ vs, blankLeaf v = .null := by
    intro v hv
    obtain ⟨n, hn⟩ := exists_operand_of_mem h hv
    exact blankLeaf_operand hn
  rw [Value.documents, itemsDocuments_eq, Value.withoutModifiers, itemsWithoutModifiers_eq_map]
  constructor
  · exact List.flatMap_eq_nil_iff.mpr fun v hv => (documents_of_blankLeaf (hblank v hv)).1
  · congr 1
    exact (List.map_congr_left fun v hv => (documents_of_blankLeaf (hblank v hv)).2).trans
      (List.map_id vs)

/-- An answer without modifiers is the same without them. -/
theorem map_withoutModifiers_eq_self {x : Traced Document}
    (h : ∀ d, x.result = .ok d → d.withoutModifiers = d) : x.map Document.withoutModifiers = x := by
  obtain ⟨paths, result⟩ := x
  cases result with
  | error e => rfl
  | ok d => exact congrArg (fun d => Traced.mk paths (.ok d)) (h d rfl)

/-- What is put together of two conditions, with their modifiers or without. -/
theorem map_withoutModifiers_combine {f : Document → Document → Document} {x y : Traced Document}
    (hf : ∀ a b, x.result = .ok a → y.result = .ok b →
      (f a b).withoutModifiers = f a.withoutModifiers b.withoutModifiers) :
    (x.andThen fun a => y.map (f a)).map Document.withoutModifiers =
      (x.map Document.withoutModifiers).andThen fun a =>
        (y.map Document.withoutModifiers).map (f a) := by
  obtain ⟨xpaths, xresult⟩ := x
  obtain ⟨ypaths, yresult⟩ := y
  cases xresult with
  | error e => rfl
  | ok a =>
    cases yresult with
    | error e => rfl
    | ok b => exact congrArg (fun d => Traced.mk (xpaths ++ ypaths) (.ok d)) (hf a b rfl rfl)

theorem map_withoutModifiers_complement (x : Traced Document) :
    (x.map complement).map Document.withoutModifiers =
      (x.map Document.withoutModifiers).map complement := by
  obtain ⟨paths, result⟩ := x
  cases result with
  | error e => rfl
  | ok d => exact congrArg (fun d => Traced.mk paths (.ok d)) (withoutModifiers_complement d)

theorem ofCall_bare (name : String) (args : List Node) :
    ofCall .bare base? name args = (ofCall o base? name args).map Document.withoutModifiers := by
  unfold ofCall
  split
  · rename_i m _
    unfold ofTextCall
    split
    · rename_i target text
      cases hpath : Traced.path base? target with
      | mk paths result =>
        cases result with
        | error e => rfl
        | ok p =>
          cases htext : textArgument name text with
          | error e => rfl
          | ok t =>
            exact congrArg (fun d => Traced.mk (paths ++ []) (.ok d))
              (withoutModifiers_onText p m t).symm
    · rfl
  · refine (map_withoutModifiers_eq_self fun d hd => ?_).symm
    obtain ⟨_, _, _, p, vs, rfl, -, hvs, rfl⟩ := ofMembership_eq_ok hd
    exact withoutModifiers_onField p (by decide) (operands_withoutModifiers hvs).2
  · rfl

theorem ofCallComparison_bare (c : Comparison) (name : String) (args : List Node) (l : Literal) :
    ofCallComparison .bare base? c name args l =
      (ofCallComparison o base? c name args l).map Document.withoutModifiers := by
  rcases ofCallComparison_cases c name l with hcall | hcomplement | ⟨e, hfail⟩
  · rw [hcall, hcall]
    exact ofCall_bare name args
  · rw [hcomplement, hcomplement, map_withoutModifiers_complement, ← ofCall_bare]
  · rw [hfail, hfail]
    rfl

theorem ofFieldComparison_bare (written c : Comparison) (field value : Node) :
    (ofFieldComparison base? written c field value).map Document.withoutModifiers =
      ofFieldComparison base? written c field value := by
  refine map_withoutModifiers_eq_self fun d hd => ?_
  obtain ⟨p, v, -, hv, rfl⟩ := ofFieldComparison_eq_ok hd
  have hkey : c.key ≠ "$regex" := by cases c <;> decide
  exact withoutModifiers_onField p hkey (documents_of_blankLeaf (blankLeaf_operand hv)).2

theorem ofComparison_bare (c : Comparison) (left right : Node) :
    ofComparison .bare base? c left right =
      (ofComparison o base? c left right).map Document.withoutModifiers := by
  unfold ofComparison
  split
  · exact ofCallComparison_bare c _ _ _
  · exact ofCallComparison_bare c _ _ _
  · refine (map_withoutModifiers_eq_self fun d hd => ?_).symm
    obtain ⟨p, -, hd⟩ := Traced.result_andThen_eq_ok.mp hd
    obtain ⟨q, -, rfl⟩ := Traced.result_map_eq_ok.mp hd
    exact withoutModifiers_betweenFields c p q
  · exact (ofFieldComparison_bare c c _ _).symm
  · exact (ofFieldComparison_bare c c.swap _ _).symm
  · rfl

theorem ofConstant_bare (n : Node) :
    (Traced.lift (ofConstant n)).map Document.withoutModifiers = .lift (ofConstant n) := by
  refine map_withoutModifiers_eq_self fun d hd => ?_
  rcases ofConstant_eq_ok hd with ⟨-, rfl⟩ | ⟨-, rfl⟩ <;> rfl

/-- **The condition of an expression, without its modifiers, does not depend on the options**, and
neither does a fault in it. -/
theorem ofNode_bare (e : Node) :
    ofNode .bare base? e = (ofNode o base? e).map Document.withoutModifiers := by
  induction e using ofNode.induct with
  | case1 left right ihl ihr =>
    rw [ofNode, ofNode, ihl, ihr, map_withoutModifiers_combine]
    exact fun a b ha hb =>
      withoutModifiers_both (built_ofNode _ ha).isNormal (built_ofNode _ hb).isNormal
  | case2 left right ihl ihr =>
    rw [ofNode, ofNode, ihl, ihr, map_withoutModifiers_combine]
    exact fun a b ha hb =>
      withoutModifiers_either (built_ofNode _ ha).isNormal (built_ofNode _ hb).isNormal
  | case3 c left right => exact ofComparison_bare c left right
  | case4 operand ih => rw [ofNode, ofNode, ih, map_withoutModifiers_complement]
  | case5 operand => exact (ofConstant_bare _).symm
  | case6 l => exact (ofConstant_bare _).symm
  | case7 name args => exact ofCall_bare name args
  | case8 name =>
    rw [ofNode, ofNode]
    refine (map_withoutModifiers_eq_self fun d hd => ?_).symm
    obtain ⟨p, -, rfl⟩ := Traced.result_map_eq_ok.mp hd
    exact withoutModifiers_onField p (by decide) rfl
  | case9 n =>
    -- The clauses of a query are no expressions.
    rw [ofNode, ofNode]
    · rfl
    all_goals assumption

/-! ## Modifiers of compiled conditions -/

theorem isModified_ofCall {name : String} {args : List Node}
    (h : (ofCall o base? name args).result = .ok d) : IsNormal o d ∧ IsModified o d := by
  obtain ⟨_, values, p, rfl, -, -, ⟨m, text, -, rfl⟩ | ⟨vs, -, hvs, hne, rfl⟩⟩ := ofCall_eq_ok h
  · exact ⟨isNormal_onText p m text, isModified_onText p m text⟩
  · have hoperand : IsOperand "$in" (.array vs) := .membership fun hnil => hne
      (List.eq_nil_of_length_eq_zero (by rw [← length_operands hvs, hnil]; rfl))
    exact ⟨isNormal_onField p hoperand (by decide) (by decide),
      isModified_onField p hoperand (by decide) (by decide) (operands_withoutModifiers hvs).1⟩

theorem isModified_ofCallComparison {c : Comparison} {name : String} {args : List Node}
    {l : Literal} (h : (ofCallComparison o base? c name args l).result = .ok d) :
    IsModified o d := by
  rcases ofCallComparison_cases c name l with hcall | hcomplement | ⟨e, hfail⟩
  · rw [hcall] at h
    exact (isModified_ofCall h).2
  · rw [hcomplement] at h
    obtain ⟨a, ha, rfl⟩ := Traced.result_map_eq_ok.mp h
    exact isModified_complement (isModified_ofCall ha).1 (isModified_ofCall ha).2
  · rw [hfail] at h
    cases h

theorem isModified_comparison (p : FieldPath) (c : Comparison) {operator : String} {n : Node}
    {v : Value} (hv : n.operand operator = .ok v) : IsModified o (onField p c.key v) := by
  refine isModified_onField p (.comparison c v) ?_ ?_ (documents_of_blankLeaf (blankLeaf_operand hv)).1
    <;> cases c <;> decide

theorem Yields.isModified {e : Node} {ps : List FieldPath} (h : Yields o base? e d ps) :
    IsModified o d := by
  induction h with
  | always =>
    intro m hm
    cases List.mem_singleton.mp hm
    exact isNormal_empty.isModified
  | never => exact isModified_single (isNormal_single .never) fun m hm => by cases hm
  | field => exact isModified_onField _ (.comparison .eq _) (by decide) (by decide) rfl
  | call h => exact (isModified_ofCall h).2
  | callTruth h | truthCall h => exact isModified_ofCallComparison h
  | fields c => exact isModified_betweenFields c _ _
  | fieldValue _ hv | valueField _ hv => exact isModified_comparison _ _ hv
  | both ha hb iha ihb => exact isModified_both ha.built.isNormal hb.built.isNormal iha ihb
  | either ha hb iha ihb =>
    exact isModified_group (ha.built.isNormal.either hb.built.isNormal) iha ihb
  | complement ha ih => exact isModified_complement ha.built.isNormal ih

/-- **In a compiled condition modifiers stand beside every pattern if case is ignored**, and nowhere
otherwise. -/
theorem isModified_ofNode (e : Node) (h : (ofNode o base? e).result = .ok d) :
    IsModified o d :=
  (yields_ofNode e h).isModified

end Condition

end EntityQuery
