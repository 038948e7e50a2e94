import EntityQuery.Proofs.Compile.Gathering
import EntityQuery.Proofs.Compile.Projection

/-!
# The targets of one query

The find, the filter and the pipeline of a query are made from one plan, although the filter comes
from the filter clause alone. What the associations add to the pipeline touches nothing else, so the
other stages say what the find says.
-/

namespace EntityQuery

/-- Of slots that are of their own kinds the filter slot alone holds expressions. -/
theorem OfOwnKind.expressions_ofNodes {clauses : QueryOptions} (h : OfOwnKind clauses.slots) :
    (Sequences.ofNodes clauses.filled).expressions =
      (Sequences.ofNodes clauses.filter.toList).expressions := by
  have hother : ∀ n : Node, n.clause? ≠ some .filter → (Sequences.ofNode n).expressions = [] := by
    intro n hn
    cases n <;> first | rfl | exact absurd rfl hn
  rw [← Sequences.ofNodes_filter (fun _ _ => rfl) hother clauses.filled, h.filter_filled]
  rfl

namespace Plan

variable {o : Options} {base? : Option FieldPath} {p q : Plan}

/-! ## The filter clause -/

/-- The filter clause alone gives the filter of all clauses. -/
theorem filter_of_readClauses {clauses : QueryOptions}
    (h : (readClauses o clauses (.start base?)).result = .ok p) :
    (readClause o .filter clauses.filter (.start base?)).result.map Plan.filter =
      .ok p.filter := by
  obtain ⟨hkinds, r, hresource, hfilled⟩ := readClauses_eq_ok_iff.mp h
  have hp : Gathers o base? p.collection? (.ofNodes clauses.filled) p := by
    have hgathers := (Gathers.start o base?).readClauses h
    rwa [Sequences.empty_append] at hgathers
  have hfilter : ∀ n, clauses.filter = some n → n.kind = .filter :=
    hkinds (.filter, clauses.filter) List.mem_cons_self
  have hsubset : clauses.filter.toList ⊆ clauses.filled := by
    intro n hn
    have hslot : (Clause.filter, clauses.filter) ∈ clauses.slots := List.mem_cons_self
    exact List.mem_filterMap.mpr ⟨_, hslot, Option.mem_toList.mp hn⟩
  have hnodes := clause?_ne_none_of_mem_filled hkinds
  have hbase : (start base?).base? = r.base? := by
    rw [Outcome.eq_plan_of_result hresource]
    exact (grows_readResource (o := o) _ _).base?_eq.symm
  -- The filter clause can be read without the clauses around it, and even without the resource.
  obtain ⟨t, ht⟩ := exists_readEach hnodes hfilled hsubset hbase
  have ht' := (Gathers.start o base?).readEach (fun n hn => hnodes n (hsubset hn)) ht
  rw [readClause_eq_readEach hfilter, ht]
  exact congrArg Except.ok (ht'.filter_eq hp hkinds.expressions_ofNodes.symm)

/-! ## The expand clause -/

/-- Associations are all that is added to a plan that items are read into. -/
theorem eq_of_readItems {items : List ExpandItem} (h : (readItems o items p).result = .ok q) :
    q = { p with expanded := q.expanded, joins := q.joins } := by
  induction items generalizing p with
  | nil =>
    cases h
    rfl
  | cons item items ih =>
    obtain ⟨r, hitem, hitems⟩ := Outcome.result_andThen_eq_ok.mp h
    obtain ⟨association, nested, -, -, rfl⟩ := readItem_eq_ok hitem
    -- The join of the first item is one of the two parts that are left open.
    have hq := ih hitems
    exact hq

/-- The expand clause is the last one, and the clauses before it can be read without it. -/
theorem readClauses_eq_andThen_expand (clauses : QueryOptions) (p : Plan) :
    readClauses o clauses p =
      (readClauses o { clauses with expand := none } p).andThen
        (readClause o .expand clauses.expand) := by
  obtain ⟨resource?, filter?, orderBy?, select?, skip?, top?, expand?⟩ := clauses
  rw [readClauses, readClauses]
  congr 1
  exact (Outcome.andThen_ok _).symm

end Plan

namespace Compile

open Plan (expandItems itemStages)

variable {o : Options} {root? : Option Node} {p : Plan} {q : FindQuery}

/-- The stages that the associations of a root add, one association after the other. -/
def joins (o : Options) (root? : Option Node) : List Stage :=
  (expandItems (expandClause? root?)).flatMap (itemStages o none)

theorem joins_of_plan (h : plan o root? = .ok p) : p.joins = joins o root? :=
  (joins_and_isRead_of_plan h).1

/-- The filter is that of the plan of the whole query. -/
theorem filter_of_plan (h : plan o root? = .ok p) : filter o root? = .ok p.filter := by
  cases root? with
  | none =>
    cases h
    rfl
  | some n =>
    cases n with
    | options clauses => exact Plan.filter_of_readClauses h
    | filter | literal | identifier | call | binary | unary =>
      exact congrArg (Except.map Plan.filter) h
    | select | orderBy | orderKey | skip | top | expand =>
      -- Where no filter has been read there is none.
      have hp := (Plan.Gathers.start o none).read (by simp [Node.clause?, Node.kind]) h
      exact hp.filter

theorem plan_without_expand {clauses : QueryOptions}
    (h : plan o (some (.options clauses)) = .ok p) :
    ∃ r, plan o (some (.options { clauses with expand := none })) = .ok r ∧
      FindQuery.ofPlan r = .ofPlan p := by
  have hread : (Plan.readClauses o clauses (.start none)).result = .ok p := h
  rw [Plan.readClauses_eq_andThen_expand, Outcome.result_andThen_eq_ok] at hread
  obtain ⟨r, hr, hexpand⟩ := hread
  refine ⟨r, hr, ?_⟩
  rw [Plan.eq_of_readItems (Plan.readClause_expand_eq_ok hexpand)]
  rfl

/-- **The three targets agree, and associations change nothing but the joins.** Where a query has a
find, its filter is that of the find. Its pipeline is the filter, the stages of the associations,
and then the projection, order and paging of the find, each if the find has it; the projection may
keep more than that of the find, but what it adds comes behind. Without the expand clause the find
and the filter are the same. -/
theorem filter_and_pipeline_of_find (h : find o root? = .ok q) :
    filter o root? = .ok q.filter ∧
      (∃ kept, (projectionDocument q.selection).entries <+: (projectionDocument kept).entries ∧
        pipeline o root? = .ok
          ((if q.filter.isEmpty then [] else [.matching q.filter]) ++ joins o root? ++
            (if (projectionDocument q.selection).isEmpty then [] else [.project kept]) ++
            (if (sortDocument q.sort).isEmpty then [] else [.sort q.sort]) ++
            (q.skip?.map Stage.skip).toList ++ (q.limit?.map Stage.limit).toList)) ∧
      (expandItems (expandClause? root?) = [] → joins o root? = []) ∧
      ∀ clauses, root? = some (.options clauses) →
        find o (some (.options { clauses with expand := none })) = .ok q ∧
          filter o (some (.options { clauses with expand := none })) = .ok q.filter := by
  obtain ⟨p, hp, rfl⟩ := exists_plan_of_find h
  refine ⟨filter_of_plan hp, ⟨p.projected, ?_, ?_⟩, fun hnone => ?_, ?_⟩
  · have hselection := isMinimal_selection_of_plan hp
    show (projectionDocument p.selection).entries <+: (projectionDocument p.projected).entries
    rw [entries_projectionDocument (Plan.nodup_projected hselection),
      entries_projectionDocument hselection.nodup, Plan.projected, foldl_addNew, List.map_append]
    exact List.prefix_append _ _
  · rw [pipeline, hp, projectionDocument, sortDocument, Document.isEmpty_ofEntries,
      Document.isEmpty_ofEntries, List.isEmpty_map, List.isEmpty_map, ← joins_of_plan hp]
    rfl
  · rw [joins, hnone, List.flatMap_nil]
  · rintro clauses rfl
    obtain ⟨r, hr, hsame⟩ := plan_without_expand hp
    rw [find, hr, filter_of_plan hr]
    exact ⟨congrArg Except.ok hsame, congrArg (fun q => Except.ok q.filter) hsame⟩

/-- A query with all clauses, and an order in the options of its association. -/
theorem filter_and_pipeline_of_find_all_clauses :
    let inner : Node := .options
      ⟨none, none, some (.orderBy [.identifier "Rank"]), none, none, none, none⟩
    let clauses : QueryOptions :=
      ⟨some (.identifier "People"),
        some (.filter (some (.binary (.comparison .gt) (.identifier "Age")
          (.literal (.integer 18))))),
        some (.orderBy [.identifier "Age"]), some (.select [.identifier "Name"]),
        some (.skip (.literal (.integer 20))), some (.top (.literal (.integer 10))),
        some (.expand [⟨.identifier "Orders", some inner⟩])⟩
    let root : Node := .options clauses
    ∃ q stages, find {} (some root) = .ok q ∧ filter {} (some root) = .ok q.filter ∧
      pipeline {} (some root) = .ok stages ∧
      stages.map Stage.operator =
        ["$match", "$lookup", "$unwind", "$sort", "$project", "$sort", "$skip", "$limit"] ∧
      (∃ kept, .project kept ∈ stages ∧
        (projectionDocument q.selection).entries <+: (projectionDocument kept).entries) ∧
      find {} (some (.options { clauses with expand := none })) = .ok q := by
  intro inner clauses root
  have hfind : (find {} (some root)).toOption.map (fun q => q.selection.isEmpty) = some false := by
    decide +kernel
  have hstages : (pipeline {} (some root)).toOption.map (fun stages => stages.map Stage.operator) =
      some ["$match", "$lookup", "$unwind", "$sort", "$project", "$sort", "$skip", "$limit"] := by
    decide +kernel
  cases hq : find {} (some root) with
  | error =>
    rw [hq] at hfind
    cases hfind
  | ok q =>
    rw [hq] at hfind
    obtain ⟨hfilter, ⟨kept, hprefix, hpipeline⟩, -, hwithout⟩ := filter_and_pipeline_of_find hq
    rw [hpipeline] at hstages
    have hselected : (projectionDocument q.selection).isEmpty = false := by
      rw [projectionDocument, Document.isEmpty_ofEntries, List.isEmpty_map]
      exact Option.some.inj hfind
    refine ⟨q, _, rfl, hfilter, hpipeline, Option.some.inj hstages, ⟨kept, ?_, hprefix⟩,
      (hwithout clauses rfl).1⟩
    rw [hselected]
    simp

end Compile

end EntityQuery
