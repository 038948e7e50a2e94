import EntityQuery.Proofs.Condition.IgnoreCase
import EntityQuery.Proofs.Plan.Filter

/-!
# Plans without regard to the options

The options tell the foreign field of each join, whether joins are unwound, and whether there are
modifiers beside patterns. If these three are taken out of a plan, what is left is the plan that is
read with the bare options: no decision that is made on the way looks at them.
-/

namespace EntityQuery

open Condition (IsNormal)

/-! ## Stages -/

namespace Stage

/-- The stage with no foreign field, and with no modifiers in its condition. -/
def bare : Stage → Stage
  | .matching condition => .matching condition.withoutModifiers
  | .lookup association _ kept => .lookup association "" kept
  | s => s

def isUnwind : Stage → Bool
  | .unwind _ => true
  | _ => false

/-- The stages, bare, of which none unwinds. -/
def bareAll (stages : List Stage) : List Stage :=
  (stages.filter fun s => !s.isUnwind).map bare

/-- The same change in what a stage says under its operator. -/
def bareBody (operator : String) : Value → Value
  | .document d =>
    if operator = "$lookup" then
      .document ⟨d.entries.map fun (k, v) => (k, if k = "foreignField" then .string "" else v)⟩
    else .document d.withoutModifiers
  | v => v

theorem bareAll_append (stages stages' : List Stage) :
    bareAll (stages ++ stages') = bareAll stages ++ bareAll stages' := by
  rw [bareAll, List.filter_append, List.map_append]
  rfl

theorem operator_bare (s : Stage) : s.bare.operator = s.operator := by
  cases s <;> rfl

end Stage

/-- The entries of a projection or of an order are numbers under the names of fields. -/
theorem mem_entries_ofEntries_dotted {α : Type} {path : α → FieldPath} {n : α → Int64}
    {as : List α} {e : String × Value}
    (h : e ∈ (Document.ofEntries (as.map fun a => ((path a).dotted, .int (n a)))).entries) :
    isOperatorKey e.1 = false ∧ ∃ k, e.2 = .int k := by
  obtain ⟨a, -, rfl⟩ := List.mem_map.mp (Document.mem_of_mem_entries_ofEntries h)
  exact ⟨(path a).isOperatorKey_dotted, n a, rfl⟩

/-- Where all keys are names of fields there is neither a pattern nor a modifier. -/
theorem not_mem_keys_of_fields {d : Document} {key : String}
    (h : ∀ e ∈ d.entries, isOperatorKey e.1 = false) (hkey : isOperatorKey key = true) :
    key ∉ d.keys := by
  intro hmem
  obtain ⟨e, he, rfl⟩ := List.mem_map.mp hmem
  exact Bool.false_ne_true ((h e he).symm.trans hkey)

theorem withoutModifiers_ofEntries_dotted {α : Type} (path : α → FieldPath) (n : α → Int64)
    (as : List α) :
    (Document.ofEntries (as.map fun a => ((path a).dotted, .int (n a)))).withoutModifiers =
      .ofEntries (as.map fun a => ((path a).dotted, .int (n a))) := by
  have hregex : "$regex" ∉ (Document.ofEntries
      (as.map fun a => ((path a).dotted, Value.int (n a)))).keys :=
    not_mem_keys_of_fields (fun e he => (mem_entries_ofEntries_dotted he).1) (by decide +kernel)
  refine Condition.withoutModifiers_eq_self hregex fun e he => ?_
  obtain ⟨-, k, hk⟩ := mem_entries_ofEntries_dotted he
  rw [hk]
  rfl

/-- The documents of stages are changed at the foreign field and at the modifiers only. -/
theorem Stage.body_bare (s : Stage) : s.bare.body = bareBody s.operator s.body := by
  cases s with
  | matching condition => rfl
  | lookup association foreignField kept => cases kept <;> rfl
  | unwind association => rfl
  | project paths =>
    exact (congrArg Value.document (withoutModifiers_ofEntries_dotted id (fun _ => 1) paths)).symm
  | sort keys =>
    exact (congrArg Value.document
      (withoutModifiers_ofEntries_dotted Prod.fst (fun k => k.2.sign) keys)).symm
  | skip count => rfl
  | limit count => rfl

/-! ## Plans -/

namespace Plan

/-- The plan with no modifiers in its filter, and with its joins bare. -/
def bare (p : Plan) : Plan :=
  { p with
    filter := p.filter.withoutModifiers
    joins := Stage.bareAll p.joins }

variable {o : Options} {p : Plan}

theorem matchingStage_bare (h : IsNormal o p.filter) :
    p.bare.matchingStage = Stage.bareAll p.matchingStage := by
  unfold matchingStage bare
  dsimp only
  rw [Condition.isEmpty_withoutModifiers h.not_mem_keys.1]
  split <;> rfl

theorem sortStage_bare (p : Plan) : p.bare.sortStage = Stage.bareAll p.sortStage := by
  show (if p.sort.isEmpty then [] else [.sort p.sort]) = Stage.bareAll (if _ then _ else _)
  split <;> rfl

theorem skipStage_bare (p : Plan) : p.bare.skipStage = Stage.bareAll p.skipStage := by
  show (p.skip?.map Stage.skip).toList = Stage.bareAll (p.skip?.map Stage.skip).toList
  cases p.skip? <;> rfl

theorem limitStage_bare (p : Plan) : p.bare.limitStage = Stage.bareAll p.limitStage := by
  show (p.limit?.map Stage.limit).toList = Stage.bareAll (p.limit?.map Stage.limit).toList
  cases p.limit? <;> rfl

theorem projectStage_bare (p : Plan) : p.bare.projectStage = Stage.bareAll p.projectStage := by
  show (if p.selection.isEmpty then [] else [.project p.projected]) =
    Stage.bareAll (if _ then _ else _)
  split <;> rfl

theorem joinStages_bare {nested : Plan} (h : IsNormal o nested.filter) (association : FieldPath) :
    joinStages Options.bare.foreignField Options.bare.unwind association nested.bare =
      Stage.bareAll (joinStages o.foreignField o.unwind association nested) := by
  -- What a join keeps is told from the clauses that the options leave alone.
  have hlookup : Stage.bareAll (.lookup association o.foreignField (nested.keptBelow association) ::
      if o.unwind then [.unwind association] else []) =
        [.lookup association "" (nested.bare.keptBelow association)] := by
    cases o.unwind <;> rfl
  unfold joinStages
  simp only [Stage.bareAll_append, hlookup]
  rw [matchingStage_bare h, sortStage_bare, skipStage_bare, limitStage_bare]
  rfl

/-- The pipeline of a plan without regard to the options is that of the plan. -/
theorem pipeline_bare (h : IsNormal o p.filter) : p.bare.pipeline = Stage.bareAll p.pipeline := by
  unfold pipeline
  simp only [Stage.bareAll_append]
  rw [matchingStage_bare h, projectStage_bare, sortStage_bare, skipStage_bare, limitStage_bare]
  rfl

/-! ## Single clauses -/

theorem readResource_bare (q : Plan) (n? : Option Node) :
    q.bare.readResource n? = (q.readResource n?).map bare := by
  cases n? with
  | none => rfl
  | some n =>
    unfold readResource
    dsimp only
    split
    · exact Outcome.ofResult_map_same fun path => rfl
    · rfl

theorem addFilter_bare {q : Plan} (hq : IsNormal o q.filter) {d : Document} (hd : IsNormal o d)
    (paths : List FieldPath) :
    q.bare.addFilter d.withoutModifiers paths = (q.addFilter d paths).bare := by
  unfold addFilter bare
  dsimp only
  rw [Condition.withoutModifiers_both hq hd]

theorem readFilter_bare {q : Plan} (hq : IsNormal o q.filter) (expression : Node) :
    q.bare.readFilter .bare expression = (q.readFilter o expression).map bare := by
  unfold readFilter
  rw [show q.bare.base? = q.base? from rfl, Condition.ofNode_bare (o := o)]
  exact Outcome.ofResult_map fun d hd =>
    addFilter_bare hq (Condition.built_ofNode _ hd).isNormal _

theorem readKey_bare (q : Plan) (expression : Node) (direction : Option Direction) :
    q.bare.readKey expression direction = (q.readKey expression direction).map bare :=
  Outcome.ofResult_map_same fun _ => rfl

theorem readOrderItem_bare (q : Plan) (item : Node) :
    q.bare.readOrderItem item = (q.readOrderItem item).map bare := by
  unfold readOrderItem
  split
  · exact readKey_bare q _ _
  · exact readKey_bare q _ _
  · rfl

theorem readOrder_bare (q : Plan) (items : List Node) :
    q.bare.readOrder items = (q.readOrder items).map bare := by
  induction items generalizing q with
  | nil => rfl
  | cons item items ih => exact Outcome.andThen_map (readOrderItem_bare q item) (ih _)

theorem readSelection_bare (q : Plan) (items : List Node) :
    q.bare.readSelection items = (q.readSelection items).map bare := by
  unfold readSelection
  split
  · rfl
  · exact Outcome.ofResult_map_same fun _ => rfl

/-! ## Whole queries -/

mutual

/-- **Reading with the bare options gives the plan that is read with any, without regard to them.** -/
theorem read_bare (n : Node) {q : Plan} (hq : IsNormal o q.filter) :
    read .bare n q.bare = (read o n q).map bare := by
  cases n with
  | options clauses => exact readClauses_bare clauses hq
  | filter expression? =>
    cases expression? with
    | none => rfl
    | some expression => exact readFilter_bare hq expression
  | orderBy items => exact readOrder_bare q items
  | orderKey expression direction => exact readKey_bare q expression direction
  | select items => exact readSelection_bare q items
  | skip n => exact Outcome.ofResult_map_same fun _ => rfl
  | top n => exact Outcome.ofResult_map_same fun _ => rfl
  | expand items => exact readItems_bare items hq
  -- An expression in the place of a clause is a filter.
  | literal | identifier | call | binary | unary => exact readFilter_bare hq _

theorem readClauses_bare (clauses : QueryOptions) {q : Plan} (hq : IsNormal o q.filter) :
    readClauses .bare clauses q.bare = (readClauses o clauses q).map bare := by
  obtain ⟨resource?, filter?, orderBy?, select?, skip?, top?, expand?⟩ := clauses
  -- After each clause the filter is in normal form, which the next clause asks for.
  have hresource := grows_readResource (o := o) q resource?
  have hfilter := hresource.andThen (grows_readClause .filter filter?)
  have hselect := hfilter.andThen (grows_readClause .select select?)
  have horderBy := hselect.andThen (grows_readClause .orderBy orderBy?)
  have hskip := horderBy.andThen (grows_readClause .skip skip?)
  have htop := hskip.andThen (grows_readClause .top top?)
  exact (readResource_bare q resource?)
    |> (Outcome.andThen_map · (readClause_bare .filter filter? (hresource.isNormal_filter hq)))
    |> (Outcome.andThen_map · (readClause_bare .select select? (hfilter.isNormal_filter hq)))
    |> (Outcome.andThen_map · (readClause_bare .orderBy orderBy? (hselect.isNormal_filter hq)))
    |> (Outcome.andThen_map · (readClause_bare .skip skip? (horderBy.isNormal_filter hq)))
    |> (Outcome.andThen_map · (readClause_bare .top top? (hskip.isNormal_filter hq)))
    |> (Outcome.andThen_map · (readClause_bare .expand expand? (htop.isNormal_filter hq)))

theorem readClause_bare (clause : Clause) (n? : Option Node) {q : Plan}
    (hq : IsNormal o q.filter) :
    readClause .bare clause n? q.bare = (readClause o clause n? q).map bare := by
  cases n? with
  | none => rfl
  | some n =>
    rw [readClause, readClause]
    split
    · exact read_bare n hq
    · rfl

theorem readItems_bare (items : List ExpandItem) {q : Plan} (hq : IsNormal o q.filter) :
    readItems .bare items q.bare = (readItems o items q).map bare := by
  cases items with
  | nil => rfl
  | cons item items =>
    exact Outcome.andThen_map (readItem_bare item q)
      (readItems_bare items ((grows_readItem item q).isNormal_filter hq))

theorem readItem_bare (item : ExpandItem) (q : Plan) :
    readItem .bare item q.bare = (readItem o item q).map bare := by
  obtain ⟨path, options?⟩ := item
  rw [readItem, readItem, show q.bare.base? = q.base? from rfl]
  cases path.fieldPath q.base? with
  | error e => rfl
  | ok association =>
    have hstart : IsNormal o (start (some association)).filter := Condition.isNormal_empty
    have hnested : readOptions .bare options? (.start (some association)) =
        (readOptions o options? (.start (some association))).map bare :=
      readOptions_bare options? hstart
    show Outcome.ofResult _ (readOptions .bare options? (.start (some association))).result _ = _
    rw [hnested, Outcome.result_map]
    refine Outcome.ofResult_map fun nested hresult => ?_
    have hnormal : IsNormal o nested.filter := by
      rw [Outcome.eq_plan_of_result hresult]
      exact (grows_readOptions options? _).isNormal_filter hstart
    rw [joinStages_bare hnormal]
    unfold join bare
    dsimp only
    rw [Stage.bareAll_append]

theorem readOptions_bare (options? : Option Node) {q : Plan} (hq : IsNormal o q.filter) :
    readOptions .bare options? q.bare = (readOptions o options? q).map bare := by
  cases options? with
  | none => rfl
  | some n =>
    cases n with
    | options clauses => exact readClauses_bare clauses hq
    | _ => rfl

end

end Plan

end EntityQuery
