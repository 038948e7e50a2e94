import EntityQuery.Compile.Target
import EntityQuery.Proofs.Plan.Options

/-!
# Options and targets

What the options decide can be told apart in the stages of a pipeline: the foreign field of every
join, the stages that unwind, and the modifiers of patterns. In all else two pipelines of one query
are the same, and a query that fails with some options fails with all of them, in the same way.
-/

namespace EntityQuery

open Condition (IsNormal IsModified)

/-! ## Stages as the options choose them -/

namespace Stage

variable {o : Options} {s u : Stage} {stages stages' : List Stage}

/-- What the document of a stage says under a key. -/
def find? (s : Stage) (key : String) : Option Value :=
  s.body.document?.bind fun d => d.find? key

/-- The stage `u` unwinds what the stage `s` joins: its path refers to the field under which the
records are put. -/
structure Unwinds (u s : Stage) : Prop where
  operator : u.operator = "$unwind"
  path : ∃ name, s.find? "as" = some (.string name) ∧
    u.find? "path" = some (.string ("$" ++ name))

/-- Every join is followed by a stage that unwinds it, and no other stage unwinds anything. -/
inductive Unwound : List Stage → Prop where
  | nil : Unwound []
  | join {s u : Stage} {stages : List Stage} (hs : s.operator = "$lookup") (hu : u.Unwinds s)
      (h : Unwound stages) : Unwound (s :: u :: stages)
  | other {s : Stage} {stages : List Stage} (hs : s.operator ≠ "$lookup")
      (hu : s.operator ≠ "$unwind") (h : Unwound stages) : Unwound (s :: stages)

theorem Unwound.append (h : Unwound stages) (h' : Unwound stages') :
    Unwound (stages ++ stages') := by
  induction h with
  | nil => exact h'
  | join hs hu _ ih => exact .join hs hu ih
  | other hs hu _ ih => exact .other hs hu ih

/-- One stage is as the options choose it. Of the foreign field only a join says anything. -/
structure Follows (o : Options) (s : Stage) : Prop where
  foreignField : s.operator = "$lookup" → s.find? "foreignField" = some (.string o.foreignField)
  unwind : s.operator = "$unwind" → o.unwind = true
  modified : ∀ m ∈ s.body.documents, m.IsModified o

/-- The stages are as the options choose them. -/
structure Follow (o : Options) (stages : List Stage) : Prop where
  each : ∀ s ∈ stages, s.Follows o
  unwound : o.unwind = true → Unwound stages

theorem Follow.append (h : Follow o stages) (h' : Follow o stages') :
    Follow o (stages ++ stages') where
  each s hs := (List.mem_append.mp hs).elim (h.each s) (h'.each s)
  unwound ho := (h.unwound ho).append (h'.unwound ho)

theorem follow_nil : Follow o [] where
  each := by simp
  unwound _ := .nil

/-- A stage that neither joins nor unwinds, and whose documents have modifiers as they should. -/
theorem follow_singleton (operator : String) (hs : s.operator = operator)
    (hne : operator ≠ "$lookup" ∧ operator ≠ "$unwind")
    (h : ∀ m ∈ s.body.documents, m.IsModified o) : Follow o [s] := by
  subst hs
  refine ⟨fun t ht => ?_, fun _ => .other hne.1 hne.2 .nil⟩
  rw [List.mem_singleton.mp ht]
  exact ⟨fun hs => absurd hs hne.1, fun hs => absurd hs hne.2, h⟩

end Stage

/-! ## Single stages -/

variable {o : Options}

/-- Among entries under the names of fields there is neither a pattern nor a modifier. -/
theorem isModified_ofEntries_dotted {α : Type} (path : α → FieldPath) (n : α → Int64)
    (as : List α) :
    IsModified o (.ofEntries (as.map fun a => ((path a).dotted, .int (n a)))) := by
  intro m hm
  rcases Condition.mem_documents.mp hm with rfl | ⟨e, he, hm⟩
  · have hnone {key : String} (hkey : isOperatorKey key = true) : key ∉ (Document.ofEntries
        (as.map fun a => ((path a).dotted, Value.int (n a)))).keys :=
      not_mem_keys_of_fields (fun e he => (mem_entries_ofEntries_dotted he).1) hkey
    rw [Document.IsModified, Document.find?_eq_none_iff.mpr (hnone (by decide +kernel)),
      if_neg fun h => hnone (by decide +kernel) h.1]
  · obtain ⟨-, k, hk⟩ := mem_entries_ofEntries_dotted he
    rw [hk] at hm
    cases hm

namespace Plan

open Stage (Follow Follows Unwound)

variable {p q : Plan}

theorem follow_matchingStage (h : IsModified o p.filter) : Follow o p.matchingStage := by
  unfold matchingStage
  split
  · exact Stage.follow_nil
  · exact Stage.follow_singleton "$match" rfl (by decide) h

theorem follow_sortStage (p : Plan) : Follow o p.sortStage := by
  unfold sortStage
  split
  · exact Stage.follow_nil
  · have hsort : IsModified o (sortDocument p.sort) :=
      isModified_ofEntries_dotted Prod.fst (fun k => k.2.sign) p.sort
    exact Stage.follow_singleton "$sort" rfl (by decide) hsort

theorem follow_projectStage (p : Plan) : Follow o p.projectStage := by
  unfold projectStage
  split
  · exact Stage.follow_nil
  · exact Stage.follow_singleton "$project" rfl (by decide)
      (isModified_ofEntries_dotted id (fun _ => 1) p.projected)

theorem follow_skipStage (p : Plan) : Follow o p.skipStage := by
  unfold skipStage
  cases p.skip? with
  | none => exact Stage.follow_nil
  | some count => exact Stage.follow_singleton "$skip" rfl (by decide) (by nofun)

theorem follow_limitStage (p : Plan) : Follow o p.limitStage := by
  unfold limitStage
  cases p.limit? with
  | none => exact Stage.follow_nil
  | some count => exact Stage.follow_singleton "$limit" rfl (by decide) (by nofun)

/-- A join has the foreign field that is chosen. What it keeps is a projection. -/
theorem follows_lookup (association : FieldPath) (kept : List FieldPath) :
    Follows o (.lookup association o.foreignField kept) where
  foreignField _ := rfl
  unwind h := absurd h (by simp [Stage.operator])
  modified := by
    have hprojection : IsModified o (projectionDocument kept) :=
      isModified_ofEntries_dotted id (fun _ => 1) kept
    intro m hm
    cases kept with
    | nil =>
      cases List.mem_singleton.mp hm
      exact rfl
    | cons path kept =>
      simp only [Stage.body, Value.documents, Document.documents, entriesDocuments, itemsDocuments,
        List.isEmpty_cons, List.append_nil, List.nil_append, List.cons_append, List.mem_cons,
        Bool.false_eq_true, if_false, Document.single] at hm
      rcases hm with rfl | rfl | hm
      · exact rfl
      · exact rfl
      · exact hprojection m hm

/-- A join is followed by the stage that unwinds it if joins are unwound. -/
theorem follow_join (association : FieldPath) (kept : List FieldPath) :
    Follow o (.lookup association o.foreignField kept ::
      if o.unwind then [.unwind association] else []) where
  each s hs := by
    rcases List.mem_cons.mp hs with rfl | hs
    · exact follows_lookup association kept
    · split at hs
      · rename_i hunwind
        rw [List.mem_singleton.mp hs]
        refine ⟨fun h => absurd h (by simp [Stage.operator]), fun _ => hunwind, fun m hm => ?_⟩
        cases List.mem_singleton.mp hm
        exact rfl
      · cases hs
  unwound ho := by
    rw [if_pos ho]
    exact .join rfl ⟨rfl, association.dotted, rfl, rfl⟩ .nil

theorem follow_joinStages {nested : Plan} (h : IsModified o nested.filter)
    (hjoins : Follow o nested.joins) (association : FieldPath) :
    Follow o (joinStages o.foreignField o.unwind association nested) :=
  (follow_join association _)
    |>.append (follow_matchingStage h)
    |>.append (follow_sortStage nested)
    |>.append (follow_skipStage nested)
    |>.append (follow_limitStage nested)
    |>.append hjoins

theorem follow_pipeline (h : IsModified o p.filter) (hjoins : Follow o p.joins) :
    Follow o p.pipeline :=
  (follow_matchingStage h)
    |>.append hjoins
    |>.append (follow_projectStage p)
    |>.append (follow_sortStage p)
    |>.append (follow_skipStage p)
    |>.append (follow_limitStage p)

/-! ## Whole queries -/

/-- What has been read is as the options choose it. -/
structure FollowsOptions (o : Options) (p : Plan) : Prop where
  normal : IsNormal o p.filter
  modified : IsModified o p.filter
  joins : Follow o p.joins

theorem followsOptions_start (base? : Option FieldPath) : FollowsOptions o (.start base?) where
  normal := Condition.isNormal_empty
  modified m hm := by
    cases List.mem_singleton.mp hm
    exact rfl
  joins := Stage.follow_nil

/-- Whatever is read, all of it is as the options choose it. -/
theorem Grows.followsOptions (h : Grows o p q) (hp : FollowsOptions o p) : FollowsOptions o q := by
  induction h with
  | refl => exact hp
  | addFilter _ hd ih =>
    have hnormal := (Condition.built_ofNode _ hd).isNormal
    exact ⟨(ih hp).normal.both hnormal,
      Condition.isModified_both (ih hp).normal hnormal (ih hp).modified
        (Condition.isModified_ofNode _ hd), (ih hp).joins⟩
  | join _ _ _ ih ihnested =>
    have hnested := ihnested (followsOptions_start _)
    exact ⟨(ih hp).normal, (ih hp).modified,
      (ih hp).joins.append (follow_joinStages hnested.modified hnested.joins _)⟩
  | _ =>
    -- No other change touches the filter or the joins.
    rename_i ih
    exact ⟨(ih hp).normal, (ih hp).modified, (ih hp).joins⟩

end Plan

/-! ## Targets -/

/-- The find with no modifiers in its filter. -/
def FindQuery.bare (q : FindQuery) : FindQuery :=
  { q with filter := q.filter.withoutModifiers }

namespace Compile

open Plan (FollowsOptions)

theorem plan_bare (o : Options) (root? : Option Node) :
    plan .bare root? = (plan o root?).map Plan.bare := by
  have hread : Plan.readRoot .bare root? (.start none) =
      (Plan.readRoot o root? (.start none)).map Plan.bare := by
    cases root? with
    | none => rfl
    | some n => exact Plan.read_bare n (q := .start none) Condition.isNormal_empty
  rw [plan, hread, Outcome.result_map, plan]

theorem followsOptions_plan {o : Options} {root? : Option Node} {p : Plan}
    (h : plan o root? = .ok p) : FollowsOptions o p := by
  rw [Outcome.eq_plan_of_result h]
  exact (Plan.grows_readRoot root? _).followsOptions (Plan.followsOptions_start none)

theorem filterPart_bare (o : Options) (root? : Option Node) :
    filterPart .bare root? = (filterPart o root?).map Plan.bare := by
  have hstart : IsNormal o (Plan.start none).filter := Condition.isNormal_empty
  unfold filterPart
  split
  · exact Plan.readClause_bare .filter _ hstart
  · split
    · exact Plan.read_bare _ hstart
    · rfl
  · rfl

theorem grows_filterPart (o : Options) (root? : Option Node) :
    Plan.Grows o (.start none) (filterPart o root?).plan := by
  unfold filterPart
  split
  · exact Plan.grows_readClause .filter _ _
  · split
    · exact Plan.grows_read _ _
    · exact .refl _
  · exact .refl _

theorem pipeline_bare (o : Options) (root? : Option Node) :
    (pipeline o root?).map Stage.bareAll = pipeline .bare root? := by
  rw [pipeline, pipeline, plan_bare o]
  cases h : plan o root? with
  | error e => rfl
  | ok p => exact congrArg Except.ok (Plan.pipeline_bare (followsOptions_plan h).normal).symm

theorem find_bare (o : Options) (root? : Option Node) :
    (find o root?).map FindQuery.bare = find .bare root? := by
  rw [find, find, plan_bare o]
  cases plan o root? <;> rfl

theorem filter_bare (o : Options) (root? : Option Node) :
    (filter o root?).map Document.withoutModifiers = filter .bare root? := by
  rw [filter, filter, filterPart_bare o, Outcome.result_map]
  cases (filterPart o root?).result <;> rfl

/-- **The options are orthogonal to the query and to one another.** With any two choices a query
fails in the same way, or compiles to results that are the same but for the stages that unwind, the
foreign fields and the modifiers; and of each of these a result has what is chosen. -/
theorem options_orthogonal (o o' : Options) (root? : Option Node) :
    (pipeline o root?).map Stage.bareAll = (pipeline o' root?).map Stage.bareAll ∧
      (find o root?).map FindQuery.bare = (find o' root?).map FindQuery.bare ∧
      (filter o root?).map Document.withoutModifiers =
        (filter o' root?).map Document.withoutModifiers ∧
      (∀ stages, pipeline o root? = .ok stages → Stage.Follow o stages) ∧
      (∀ q, find o root? = .ok q → IsModified o q.filter) ∧
      (∀ d, filter o root? = .ok d → IsModified o d) ∧
      ∀ s : Stage, s.bare.operator = s.operator ∧ s.bare.body = Stage.bareBody s.operator s.body := by
  refine ⟨?_, ?_, ?_, ?_, ?_, ?_, fun s => ⟨s.operator_bare, s.body_bare⟩⟩
  · rw [pipeline_bare, pipeline_bare]
  · rw [find_bare, find_bare]
  · rw [filter_bare, filter_bare]
  · intro stages h
    rw [pipeline] at h
    cases hplan : plan o root? with
    | error e =>
      rw [hplan] at h
      cases h
    | ok p =>
      rw [hplan] at h
      cases h
      have hp := followsOptions_plan hplan
      exact Plan.follow_pipeline hp.modified hp.joins
  · intro q h
    rw [find] at h
    cases hplan : plan o root? with
    | error e =>
      rw [hplan] at h
      cases h
    | ok p =>
      rw [hplan] at h
      cases h
      exact (followsOptions_plan hplan).modified
  · intro d h
    rw [filter] at h
    cases hpart : (filterPart o root?).result with
    | error e =>
      rw [hpart] at h
      cases h
    | ok p =>
      rw [hpart] at h
      cases h
      rw [Outcome.eq_plan_of_result hpart]
      exact ((grows_filterPart o root?).followsOptions (Plan.followsOptions_start none)).modified

/-- Two patterns and two joins, one below the other, with the options chosen once so and once
otherwise. -/
theorem options_orthogonal_nested_joins :
    let name (text : String) : Node :=
      .call "contains" [.identifier "Name", .literal (.string text)]
    let inner : Node := .options
      ⟨none, some (.filter (some (name "b"))), none, none, none, none,
        some (.expand [⟨.identifier "Buyer", none⟩])⟩
    let root : Node := .options
      ⟨none, some (.filter (some (name "a"))), none, none, none, none,
        some (.expand [⟨.identifier "Orders", some inner⟩])⟩
    let o : Options := ⟨"key", true, true⟩
    let o' : Options := ⟨"_id", false, false⟩
    ∃ stages stages' q d, pipeline o (some root) = .ok stages ∧
      pipeline o' (some root) = .ok stages' ∧ find o (some root) = .ok q ∧
      filter o (some root) = .ok d ∧
      stages.map Stage.operator =
        ["$match", "$lookup", "$unwind", "$match", "$lookup", "$unwind"] ∧
      stages'.map Stage.operator = ["$match", "$lookup", "$match", "$lookup"] ∧
      Stage.bareAll stages = Stage.bareAll stages' ∧ Stage.Follow o stages ∧
      Stage.Follow o' stages' ∧ IsModified o q.filter ∧ IsModified o d := by
  intro name inner root o o'
  have hoperators : (pipeline o (some root)).toOption.map (List.map Stage.operator) =
      some ["$match", "$lookup", "$unwind", "$match", "$lookup", "$unwind"] := by
    decide +kernel
  have hoperators' : (pipeline o' (some root)).toOption.map (List.map Stage.operator) =
      some ["$match", "$lookup", "$match", "$lookup"] := by
    decide +kernel
  have hfind : (find o (some root)).isOk = true := by decide +kernel
  have hfilter : (filter o (some root)).isOk = true := by decide +kernel
  obtain ⟨hsame, -, -, hfollow, hquery, hcondition, -⟩ := options_orthogonal o o' (some root)
  cases hstages : pipeline o (some root) with
  | error =>
    rw [hstages] at hoperators
    cases hoperators
  | ok stages => cases hstages' : pipeline o' (some root) with
    | error =>
      rw [hstages'] at hoperators'
      cases hoperators'
    | ok stages' => cases hq : find o (some root) with
      | error =>
        rw [hq] at hfind
        cases hfind
      | ok q => cases hd : filter o (some root) with
        | error =>
          rw [hd] at hfilter
          cases hfilter
        | ok d =>
          rw [hstages] at hoperators hsame
          rw [hstages'] at hoperators' hsame
          have hfollow' := (options_orthogonal o' o (some root)).2.2.2.1
          exact ⟨stages, stages', q, d, rfl, rfl, rfl, rfl, Option.some.inj hoperators,
            Option.some.inj hoperators', Except.ok.inj hsame, hfollow stages hstages,
            hfollow' stages' hstages', hquery q hq, hcondition d hd⟩

end Compile

end EntityQuery
