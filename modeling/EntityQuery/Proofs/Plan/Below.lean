import EntityQuery.Plan.Read
import EntityQuery.Proofs.Condition.Below
import EntityQuery.Proofs.Plan.Outcome
import Mathlib.Data.List.Basic

/-!
# Plans taken below a path

A query that is read for an association gives the plan that it gives for the records themselves, with
every field taken below the path of the association. The rules of the clauses compare paths with one
another, and the narrowing of a join is told from the association on, so none of them sees where the
query is read.
-/

namespace EntityQuery

/-! ## Stages -/

namespace Stage

/-- The stage with all its fields taken below a path. What a join keeps is told from the association
on and stays. -/
def below (p : FieldPath) : Stage → Stage
  | .matching condition => .matching (Condition.below p condition)
  | .lookup association foreignField kept => .lookup (p ++ association) foreignField kept
  | .unwind association => .unwind (p ++ association)
  | .project paths => .project (paths.map (p ++ ·))
  | .sort keys => .sort (keys.map fun k => (p ++ k.1, k.2))
  | .skip count => .skip count
  | .limit count => .limit count

/-- A value that is the name of a field. -/
def namedBelow (p : FieldPath) : Value → Value
  | .string name => .string (p.nameBelow name)
  | v => v

/-- The same change in what a stage says under its operator. -/
def bodyBelow (p : FieldPath) (operator : String) : Value → Value
  | .document d =>
    if operator = "$lookup" then
      .document ⟨d.entries.map fun (k, v) =>
        (k, if k = "localField" ∨ k = "as" then namedBelow p v else v)⟩
    else if operator = "$unwind" then
      .document ⟨d.entries.map fun (k, v) =>
        (k, if k = "path" then Condition.referenceBelow p v else v)⟩
    else .document (Condition.below p d)
  | v => v

end Stage

theorem projectionDocument_below (p : FieldPath) (paths : List FieldPath) :
    projectionDocument (paths.map (p ++ ·)) = Condition.below p (projectionDocument paths) := by
  rw [projectionDocument, List.map_map, projectionDocument]
  exact (Condition.below_ofEntries_dotted p id (fun _ => .int 1) paths).symm

theorem sortDocument_below (p : FieldPath) (keys : List SortKey) :
    sortDocument (keys.map fun k => (p ++ k.1, k.2)) = Condition.below p (sortDocument keys) := by
  rw [sortDocument, List.map_map, sortDocument]
  exact (Condition.below_ofEntries_dotted p Prod.fst (fun k => .int k.2.sign) keys).symm

/-- The documents of stages are changed at the names and references of fields only. -/
theorem Stage.body_below (p : FieldPath) (s : Stage) :
    (s.below p).body = bodyBelow p s.operator s.body := by
  cases s with
  | matching condition => rfl
  | lookup association foreignField kept =>
    simp only [Stage.below, body, FieldPath.last_append, FieldPath.dotted_append]
    cases kept <;> rfl
  | unwind association =>
    have hreference := Condition.referenceBelow_reference p association
    show Value.document ⟨[("path", .string (p ++ association).reference), _]⟩ = _
    rw [← hreference]
    rfl
  | project paths => exact congrArg Value.document (projectionDocument_below p paths)
  | sort keys => exact congrArg Value.document (sortDocument_below p keys)
  | skip count => rfl
  | limit count => rfl

/-! ## Plans -/

namespace Plan

/-- The plan with all its fields taken below a path. -/
def below (p : FieldPath) (q : Plan) : Plan where
  base? := some (p.baseBelow q.base?)
  collection? := q.collection?
  filter := Condition.below p q.filter
  filterPaths := q.filterPaths.map (p ++ ·)
  selection := q.selection.map (p ++ ·)
  sort := q.sort.map fun k => (p ++ k.1, k.2)
  skip? := q.skip?
  limit? := q.limit?
  expanded := q.expanded.map (p ++ ·)
  joins := q.joins.map (Stage.below p)

end Plan

/-- The outcome with all fields taken below a path, up to the same fault. -/
def Outcome.below (p : FieldPath) (x : Outcome) : Outcome :=
  ⟨x.plan.below p, x.error?⟩

variable (p : FieldPath)

/-! ## Lists of paths -/

theorem Selection.covers_map (s : Selection) (q : FieldPath) :
    Selection.covers (s.map (p ++ ·)) (p ++ q) = s.covers q := by
  rw [covers, List.any_map, covers]
  congr 1
  funext r
  exact FieldPath.covers_append_append p r q

theorem Selection.add_map (s : Selection) (q : FieldPath) :
    Selection.add (s.map (p ++ ·)) (p ++ q) = (s.add q).map (p ++ ·) := by
  rw [add, covers_map, add]
  split
  · rfl
  · rw [List.map_append, List.filter_map]
    congr 3
    funext r
    exact congrArg not (FieldPath.covers_append_append p q r)

theorem Selection.foldl_add_map (paths : List FieldPath) (s : Selection) :
    (paths.map (p ++ ·)).foldl add (s.map (p ++ ·)) = (paths.foldl add s).map (p ++ ·) := by
  rw [List.foldl_map]
  exact List.foldl_hom (List.map (p ++ ·)) fun s q => add_map p s q

theorem addNew_map {α β : Type} [DecidableEq α] [DecidableEq β] {f : α → β}
    (hf : Function.Injective f) (as : List α) (a : α) :
    addNew (as.map f) (f a) = (addNew as a).map f := by
  unfold addNew
  by_cases h : a ∈ as
  · rw [if_pos h, if_pos (List.mem_map_of_mem h)]
  · rw [if_neg h, if_neg fun hmem => h ((List.mem_map_of_injective hf).mp hmem), List.map_append,
      List.map_singleton]

theorem foldl_addNew_map (paths filterPaths : List FieldPath) :
    (paths.map (p ++ ·)).foldl addNew (filterPaths.map (p ++ ·)) =
      (paths.foldl addNew filterPaths).map (p ++ ·) := by
  rw [List.foldl_map]
  exact List.foldl_hom (List.map (p ++ ·)) fun qs q => addNew_map p.append_injective qs q

theorem setDirection_map (q : FieldPath) (d : Direction) (keys : List SortKey) :
    setDirection (p ++ q) d (keys.map fun k => (p ++ k.1, k.2)) =
      (setDirection q d keys).map fun k => (p ++ k.1, k.2) := by
  induction keys with
  | nil => rfl
  | cons k keys ih =>
    obtain ⟨r, e⟩ := k
    rw [List.map_cons, setDirection, setDirection]
    by_cases h : r = q
    · rw [if_pos h, if_pos (congrArg (p ++ ·) h), List.map_cons]
    · rw [if_neg h, if_neg fun hpr => h (p.append_injective hpr), ih, List.map_cons]

namespace Plan

/-! ## Changes of a plan -/

theorem setCollection_below (q : Plan) (name : String) :
    (q.below p).setCollection name = (q.setCollection name).below p :=
  rfl

theorem addFilter_below (q : Plan) (d : Document) (paths : List FieldPath) :
    (q.below p).addFilter (Condition.below p d) (paths.map (p ++ ·)) =
      (q.addFilter d paths).below p := by
  unfold addFilter below
  dsimp only
  rw [← Condition.below_both, foldl_addNew_map]

theorem select_below (q : Plan) (paths : List FieldPath) :
    (q.below p).select (paths.map (p ++ ·)) = (q.select paths).below p := by
  unfold select below
  dsimp only
  rw [Selection.foldl_add_map]

theorem sortBy_below (q : Plan) (path : FieldPath) (d : Direction) :
    (q.below p).sortBy (p ++ path) d = (q.sortBy path d).below p := by
  unfold sortBy below
  dsimp only
  rw [setDirection_map]

theorem join_below (q : Plan) (association : FieldPath) (stages : List Stage) :
    (q.below p).join (p ++ association) (stages.map (Stage.below p)) =
      (q.join association stages).below p := by
  unfold join below
  dsimp only
  rw [List.map_append, List.map_append, List.map_singleton]

/-! ## Stages of an association -/

/-- What a join keeps is the same below a path. -/
theorem keptBelow_below (nested : Plan) (association : FieldPath) :
    (nested.below p).keptBelow (p ++ association) = nested.keptBelow association := by
  have hsort : (nested.below p).sort.map Prod.fst = (nested.sort.map Prod.fst).map (p ++ ·) := by
    rw [List.map_map]
    exact List.map_map ..
  unfold keptBelow
  rw [hsort]
  show (if (nested.selection.map (p ++ ·)).isEmpty then _ else
    ((nested.selection.map (p ++ ·) ++ nested.filterPaths.map (p ++ ·) ++
      (nested.sort.map Prod.fst).map (p ++ ·) ++ nested.expanded.map (p ++ ·)).foldl _ _)) = _
  -- Of each path the same is left below the association, so the same paths are added.
  rw [List.isEmpty_map, ← List.map_append, ← List.map_append, ← List.map_append, List.foldl_map]
  simp only [FieldPath.below?_append_append]

theorem joinStages_below (foreignField : String) (unwind : Bool) (association : FieldPath)
    (nested : Plan) :
    joinStages foreignField unwind (p ++ association) (nested.below p) =
      (joinStages foreignField unwind association nested).map (Stage.below p) := by
  have hmatching : (nested.below p).matchingStage = nested.matchingStage.map (Stage.below p) := by
    unfold matchingStage below Condition.below
    dsimp only
    rw [Condition.Rewriting.isEmpty_document]
    split <;> rfl
  have hsort : (nested.below p).sortStage = nested.sortStage.map (Stage.below p) := by
    unfold sortStage below
    dsimp only
    rw [List.isEmpty_map]
    split <;> rfl
  have hskip : (nested.below p).skipStage = nested.skipStage.map (Stage.below p) := by
    show (nested.skip?.map Stage.skip).toList = (nested.skip?.map Stage.skip).toList.map _
    cases nested.skip? <;> rfl
  have hlimit : (nested.below p).limitStage = nested.limitStage.map (Stage.below p) := by
    show (nested.limit?.map Stage.limit).toList = (nested.limit?.map Stage.limit).toList.map _
    cases nested.limit? <;> rfl
  -- The join keeps the same as before, and all other stages are changed one by one.
  unfold joinStages
  rw [keptBelow_below, hmatching, hsort, hskip, hlimit]
  cases unwind <;> simp [Stage.below, below]

end Plan

/-! ## Reading -/

namespace Outcome

variable {p}

theorem result_below (p : FieldPath) (x : Outcome) :
    (x.below p).result = x.result.map (Plan.below p) :=
  result_map (Plan.below p) x

theorem ofResult_below {α β : Type} {q : Plan} {x : Except CompileError α} {g : α → β}
    {f : α → Plan} {f' : β → Plan} (h : ∀ a, f' (g a) = (f a).below p) :
    ofResult (q.below p) (x.map g) f' = (ofResult q x f).below p :=
  ofResult_map (g := Plan.below p) fun a _ => h a

/-- An answer that names no field below the base. -/
theorem ofResult_below_same {α : Type} {q : Plan} {x : Except CompileError α} {f f' : α → Plan}
    (h : ∀ a, f' a = (f a).below p) :
    ofResult (q.below p) x f' = (ofResult q x f).below p :=
  ofResult_map_same (g := Plan.below p) h

theorem andThen_below {x x' : Outcome} {f : Plan → Outcome} (hx : x' = x.below p)
    (hf : ∀ q : Plan, f (q.below p) = (f q).below p) :
    x'.andThen f = (x.andThen f).below p :=
  andThen_map (g := Plan.below p) hx (hf x.plan)

end Outcome

namespace Plan

variable {o : Options}

theorem readResource_below (q : Plan) (n? : Option Node) :
    (q.below p).readResource n? = (q.readResource n?).below p := by
  cases n? with
  | none => rfl
  | some n =>
    unfold readResource
    dsimp only
    split
    · exact Outcome.ofResult_below_same fun path => setCollection_below p q path.first
    · rfl

theorem readFilter_below (q : Plan) (expression : Node) :
    (q.below p).readFilter o expression = (q.readFilter o expression).below p := by
  have hcondition : Condition.ofNode o (q.below p).base? expression =
      (Condition.ofNode o q.base? expression).below p (Condition.below p) :=
    Condition.ofNode_below p q.base? expression
  unfold readFilter
  rw [hcondition]
  exact Outcome.ofResult_below fun d => addFilter_below p q d _

theorem readKey_below (q : Plan) (expression : Node) (direction : Option Direction) :
    (q.below p).readKey expression direction = (q.readKey expression direction).below p := by
  unfold readKey
  show Outcome.ofResult _ (expression.fieldPath (some (p.baseBelow q.base?))) _ = _
  rw [Node.fieldPath_baseBelow]
  exact Outcome.ofResult_below fun path => sortBy_below p q path _

theorem readOrderItem_below (q : Plan) (item : Node) :
    (q.below p).readOrderItem item = (q.readOrderItem item).below p := by
  unfold readOrderItem
  split
  · exact readKey_below p q _ _
  · exact readKey_below p q _ _
  · rfl

theorem readOrder_below (q : Plan) (items : List Node) :
    (q.below p).readOrder items = (q.readOrder items).below p := by
  induction items generalizing q with
  | nil => rfl
  | cons item items ih =>
    exact Outcome.andThen_below (readOrderItem_below p q item) fun q => ih q

theorem selectedPath_below (base? : Option FieldPath) (n : Node) :
    selectedPath (some (p.baseBelow base?)) n = (selectedPath base? n).map (p ++ ·) := by
  cases n with
  | identifier name => exact Node.fieldPath_baseBelow p base? (.identifier name)
  | _ => rfl

theorem selectedPaths_below (base? : Option FieldPath) (ns : List Node) :
    selectedPaths (some (p.baseBelow base?)) ns =
      (selectedPaths base? ns).map (List.map (p ++ ·)) := by
  induction ns with
  | nil => rfl
  | cons n ns ih =>
    rw [selectedPaths, selectedPath_below, ih, selectedPaths]
    cases selectedPath base? n with
    | error e => rfl
    | ok path => cases selectedPaths base? ns <;> rfl

theorem readSelection_below (q : Plan) (items : List Node) :
    (q.below p).readSelection items = (q.readSelection items).below p := by
  unfold readSelection
  split
  · rfl
  · show Outcome.ofResult _ (selectedPaths (some (p.baseBelow q.base?)) items) _ = _
    rw [selectedPaths_below]
    exact Outcome.ofResult_below fun paths => select_below p q paths

/-! ## Whole queries -/

mutual

theorem read_below (n : Node) (q : Plan) : read o n (q.below p) = (read o n q).below p := by
  cases n with
  | options clauses => exact readClauses_below clauses q
  | filter expression? =>
    cases expression? with
    | none => rfl
    | some expression => exact readFilter_below p q expression
  | orderBy items => exact readOrder_below p q items
  | orderKey expression direction => exact readKey_below p q expression direction
  | select items => exact readSelection_below p q items
  | skip n => exact Outcome.ofResult_below_same fun _ => rfl
  | top n => exact Outcome.ofResult_below_same fun _ => rfl
  | expand items => exact readItems_below items q
  -- An expression in the place of a clause is a filter.
  | literal | identifier | call | binary | unary => exact readFilter_below p q _

theorem readClauses_below (clauses : QueryOptions) (q : Plan) :
    readClauses o clauses (q.below p) = (readClauses o clauses q).below p := by
  obtain ⟨resource?, filter?, orderBy?, select?, skip?, top?, expand?⟩ := clauses
  exact (readResource_below p q resource?)
    |> (Outcome.andThen_below · (readClause_below .filter filter?))
    |> (Outcome.andThen_below · (readClause_below .select select?))
    |> (Outcome.andThen_below · (readClause_below .orderBy orderBy?))
    |> (Outcome.andThen_below · (readClause_below .skip skip?))
    |> (Outcome.andThen_below · (readClause_below .top top?))
    |> (Outcome.andThen_below · (readClause_below .expand expand?))

theorem readClause_below (clause : Clause) (n? : Option Node) (q : Plan) :
    readClause o clause n? (q.below p) = (readClause o clause n? q).below p := by
  cases n? with
  | none => rfl
  | some n =>
    rw [readClause, readClause]
    split
    · exact read_below n q
    · rfl

theorem readItems_below (items : List ExpandItem) (q : Plan) :
    readItems o items (q.below p) = (readItems o items q).below p := by
  cases items with
  | nil => rfl
  | cons item items =>
    exact Outcome.andThen_below (readItem_below item q) (readItems_below items)

theorem readItem_below (item : ExpandItem) (q : Plan) :
    readItem o item (q.below p) = (readItem o item q).below p := by
  obtain ⟨path, options?⟩ := item
  have hbase : (q.below p).base? = some (p.baseBelow q.base?) := rfl
  rw [readItem, readItem, hbase, Node.fieldPath_baseBelow]
  cases path.fieldPath q.base? with
  | error e => rfl
  | ok association =>
    -- The nested plan starts below the association, which itself is taken below the path.
    have hnested : readOptions o options? (.start (some (p ++ association))) =
        (readOptions o options? (.start (some association))).below p :=
      readOptions_below options? (.start (some association))
    show Outcome.ofResult _ (readOptions o options? (.start (some (p ++ association)))).result _ = _
    rw [hnested, Outcome.result_below]
    refine Outcome.ofResult_below fun nested => ?_
    rw [joinStages_below, join_below]

theorem readOptions_below (options? : Option Node) (q : Plan) :
    readOptions o options? (q.below p) = (readOptions o options? q).below p := by
  cases options? with
  | none => rfl
  | some n =>
    cases n with
    | options clauses => exact readClauses_below clauses q
    | _ => rfl

end

/-- **Options that are read below a path give what they give without one, below that path**: the same
plan with its fields taken below the path, or the same fault after the same part of the plan. In the
documents of the stages this shows at the names and references of fields, and nowhere else. -/
theorem read_options_below (clauses : QueryOptions) :
    read o (.options clauses) (.start (some p)) =
        (read o (.options clauses) (.start none)).below p ∧
      ∀ s : Stage, (s.below p).operator = s.operator ∧
        (s.below p).body = Stage.bodyBelow p s.operator s.body := by
  refine ⟨?_, fun s => ⟨?_, Stage.body_below p s⟩⟩
  · -- A plan that starts below the path is the plan that starts without one, below the path.
    exact read_below p (.options clauses) (.start none)
  · cases s <;> rfl

end Plan

end EntityQuery
