import EntityQuery.Proofs.Compile.Options
import EntityQuery.Proofs.Compile.Targets

/-!
# Joins in preorder

The associations of a query form a forest: those of an expand clause, and below each of them those
in its own options. The joins of a pipeline go through this forest in preorder. What the options of
an association say besides stands behind its own join and before the next one.
-/

namespace EntityQuery

/-! ## The forest of associations -/

/-- What the options of an association say, clause by clause. -/
def ExpandItem.sequences (item : ExpandItem) : Sequences :=
  match item.options with
  | some (.options clauses) => .ofNodes clauses.filled
  | _ => .empty

namespace Plan

variable {o : Options} {base? : Option FieldPath} {p q : Plan}

/-- The associations in preorder, each with those above it: its trail from the root. -/
def preorder (above : List ExpandItem) : List ExpandItem → List (List ExpandItem)
  | [] => []
  | item :: items =>
    (above ++ [item]) :: (preorder (above ++ [item]) (nestedItems item) ++ preorder above items)
termination_by items => sizeOf items
decreasing_by
  · exact sizeOf_nestedItems_lt List.mem_cons_self
  · simp only [List.cons.sizeOf_spec]
    omega

/-- A trail goes on from the associations above. -/
theorem prefix_of_mem_preorder {above items trail : List ExpandItem}
    (h : trail ∈ preorder above items) : above <+: trail := by
  fun_induction preorder above items with
  | case1 => cases h
  | case2 above item items ih ih' =>
    rcases List.mem_cons.mp h with rfl | h
    · exact List.prefix_append _ _
    · rcases List.mem_append.mp h with h | h
      · exact (List.prefix_append _ _).trans (ih h)
      · exact ih' h

/-- Every association comes behind those above it. -/
theorem mem_of_preorder_eq {above items trail : List ExpandItem}
    {before after : List (List ExpandItem)}
    (h : preorder above items = before ++ trail :: after) {t : List ExpandItem} (ht : t <+: trail)
    (hne : t ≠ trail) (hlonger : above.length < t.length) : t ∈ before := by
  fun_induction preorder above items generalizing before after with
  | case1 => simp at h
  | case2 above item items ih ih' =>
    cases before with
    | nil =>
      -- The first trail is only one longer than `above`.
      obtain ⟨rfl, -⟩ := List.cons.inj h
      have hlength : t.length ≤ (above ++ [item]).length := ht.length_le
      rw [List.length_append, List.length_singleton] at hlength
      exact absurd (ht.eq_of_length (by simp; omega)) hne
    | cons first before =>
      obtain ⟨rfl, hrest⟩ := List.cons.inj h
      rcases List.append_eq_append_iff.mp hrest with ⟨between, rfl, hitems⟩ | ⟨rest, hnested, hrest⟩
      · exact List.mem_cons_of_mem _ (List.mem_append_right _ (ih' hitems hlonger))
      · cases rest with
        | nil =>
          have hitems : preorder above items = [] ++ trail :: after := hrest.symm
          exact absurd (ih' hitems hlonger) List.not_mem_nil
        | cons next rest =>
          obtain ⟨rfl, -⟩ := List.cons.inj hrest
          by_cases heq : (above ++ [item]).length < t.length
          · exact List.mem_cons_of_mem _ (ih hnested heq)
          · -- The trail goes on from this item, and so does the part of it that is as long.
            have hitem : above ++ [item] <+: trail := by
              apply prefix_of_mem_preorder
              rw [hnested]
              simp
            have hshort : t <+: above ++ [item] :=
              List.prefix_of_prefix_length_le ht hitem (Nat.le_of_not_lt heq)
            have hlength : t.length = (above ++ [item]).length :=
              Nat.le_antisymm hshort.length_le (by simp; omega)
            rw [hshort.eq_of_length hlength]
            exact List.mem_cons_self

/-! ## Where associations lie -/

/-- The associations of a trail are named each below the one before it, by these paths. Together the
paths lead to the base of what stands below the trail. -/
structure LiesAt (trail : List ExpandItem) (paths : List FieldPath) (base? : Option FieldPath) :
    Prop where
  named : trail.map (fun item => item.path.fieldPath none) = paths.map .ok
  segments : base?.elim [] FieldPath.segments = paths.flatMap FieldPath.segments

theorem LiesAt.nil : LiesAt [] [] none :=
  ⟨rfl, rfl⟩

/-- The next association lies below, and the last segment of its path is that of its own path. -/
theorem LiesAt.append {above : List ExpandItem} {paths : List FieldPath}
    (h : LiesAt above paths base?) {item : ExpandItem} {a : FieldPath}
    (ha : item.path.fieldPath base? = .ok a) :
    ∃ own, LiesAt (above ++ [item]) (paths ++ [own]) (some a) ∧ a.last = own.last := by
  obtain ⟨own, hown, hsegments, hlast⟩ : ∃ own, item.path.fieldPath none = .ok own ∧
      a.segments = base?.elim [] FieldPath.segments ++ own.segments ∧ a.last = own.last := by
    cases base? with
    | none => exact ⟨a, ha, rfl, rfl⟩
    | some base =>
      have hbelow : item.path.fieldPath (some base) = (item.path.fieldPath none).map (base ++ ·) :=
        Node.fieldPath_baseBelow base none item.path
      obtain ⟨own, hown, rfl⟩ := exists_of_map_eq_ok (hbelow ▸ ha)
      exact ⟨own, hown, rfl, FieldPath.last_append base own⟩
  refine ⟨own, ⟨?_, ?_⟩, hlast⟩
  · rw [List.map_append, h.named, List.map_singleton, hown, List.map_append, List.map_singleton]
  · rw [List.flatMap_append, List.flatMap_singleton, ← h.segments]
    exact hsegments

end Plan

/-! ## The stages of one association -/

/-- The stage joins the last association of a trail, which lies at the path `a`. The records are
taken from where this association by itself says, and are put to where the whole trail leads. -/
structure Stage.JoinsAt (s : Stage) (trail : List ExpandItem) (a : FieldPath) : Prop where
  operator : s.operator = "$lookup"
  source : ∃ paths own, Plan.LiesAt trail (paths ++ [own]) (some a) ∧
    s.find? "from" = some (.string own.last)
  localField : s.find? "localField" = some (.string a.dotted)
  as : s.find? "as" = some (.string a.dotted)

namespace Plan

variable {o : Options} {base? : Option FieldPath} {p q : Plan}

/-- The stages that belong to the last association of a trail: its join, and behind it what its own
options say, each clause if it says anything. -/
inductive Segment (o : Options) : List ExpandItem → List Stage → Prop where
  | intro {above : List ExpandItem} {item : ExpandItem} {join : Stage} {a : FieldPath}
      {condition : Document} {keys sort : List SortKey} {skip? limit? : Option UInt64}
      (hjoin : join.JoinsAt (above ++ [item]) a)
      (hfilter : conjunction o (some a) item.sequences.expressions = .ok condition)
      (hkeys : item.sequences.keys.map (sortKey (some a)) = keys.map .ok)
      (hsort : OrderedBy keys sort)
      (hskip : item.sequences.skips.getLast?.map (count .skip) = skip?.map .ok)
      (hlimit : item.sequences.tops.getLast?.map (count .top) = limit?.map .ok) :
      Segment o (above ++ [item])
        (join :: (if o.unwind then [.unwind a] else []) ++
          (if condition.isEmpty then [] else [.matching condition]) ++
          (if item.sequences.keys.isEmpty then [] else [.sort sort]) ++
          (skip?.map Stage.skip).toList ++ (limit?.map Stage.limit).toList)

/-- The plan for an association gathers what its own options say. -/
theorem gathers_readOptions {item : ExpandItem} {a : FieldPath} {nested : Plan}
    (h : (readOptions o item.options (.start (some a))).result = .ok nested) :
    Gathers o (some a) nested.collection? item.sequences nested := by
  obtain ⟨path, options?⟩ := item
  cases options? with
  | none =>
    cases h
    exact .start o (some a)
  | some n => cases n with
    | options clauses =>
      have hread : (readClauses o clauses (.start (some a))).result = .ok nested := h
      have hgathers := (Gathers.start o (some a)).readClauses hread
      rwa [Sequences.empty_append] at hgathers
    | _ => cases h

/-- The stages of an association without the joins below it are its segment. -/
theorem segment_ownStages {above : List ExpandItem} {paths : List FieldPath}
    (habove : LiesAt above paths base?) {item : ExpandItem} {a : FieldPath} {nested : Plan}
    (ha : item.path.fieldPath base? = .ok a)
    (hnested : (readOptions o item.options (.start (some a))).result = .ok nested) :
    Segment o (above ++ [item]) (ownStages o.foreignField o.unwind a nested) := by
  obtain ⟨own, hlies, hlast⟩ := habove.append ha
  have hgathers := gathers_readOptions hnested
  obtain ⟨keys, hkeys, hsort⟩ := hgathers.sort
  have hjoin : (Stage.lookup a o.foreignField (nested.keptBelow a)).JoinsAt (above ++ [item]) a :=
    { operator := rfl
      source := ⟨paths, own, hlies, by rw [← hlast]; rfl⟩
      localField := rfl
      as := rfl }
  rw [ownStages, sortStage, hgathers.isEmpty_sort]
  exact .intro hjoin hgathers.filter hkeys hsort hgathers.skip hgathers.limit

/-! ## The stages of all associations -/

theorem operator_ne_lookup_of_isPlain {s : Stage} (h : s.isPlain = true) :
    s.operator ≠ "$lookup" := by
  cases s with
  | lookup => cases h
  | _ => simp [Stage.operator]

/-- No stage around the joins of a plan joins anything. -/
theorem operator_ne_lookup_of_mem_ends {s : Stage}
    (h : s ∈ p.matchingStage ++ (p.projectStage ++ p.sortStage ++ p.skipStage ++ p.limitStage)) :
    s.operator ≠ "$lookup" := by
  simp only [List.mem_append] at h
  rcases h with h | ((h | h) | h) | h
  · exact operator_ne_lookup_of_isPlain (isPlain_of_mem_matchingStage h)
  · unfold projectStage at h
    split at h
    · cases h
    · rw [List.mem_singleton.mp h]
      simp [Stage.operator]
  · exact operator_ne_lookup_of_isPlain (isPlain_of_mem_sortStage h)
  · exact operator_ne_lookup_of_isPlain (isPlain_of_mem_skipStage h)
  · exact operator_ne_lookup_of_isPlain (isPlain_of_mem_limitStage h)

/-- What items add to a plan are the segments of the associations in preorder. -/
theorem exists_segments {above : List ExpandItem} {paths : List FieldPath}
    (habove : LiesAt above paths base?) {items : List ExpandItem}
    (hread : ∀ item ∈ items, item.IsRead o base?) :
    ∃ segments, items.flatMap (itemStages o base?) = segments.flatten ∧
      List.Forall₂ (Segment o) (preorder above items) segments := by
  fun_induction preorder above items generalizing paths base? with
  | case1 => exact ⟨[], rfl, .nil⟩
  | case2 above item items ih ih' =>
    obtain ⟨⟨a, nested, ha, hnested⟩, hitems⟩ := List.forall_mem_cons.mp hread
    obtain ⟨own, hlies, -⟩ := habove.append ha
    -- The joins of the nested plan are those of the items below this one.
    obtain ⟨hjoins, hbelow⟩ := joins_of_readOptions hnested
    obtain ⟨deeper, hdeeper, hsegments⟩ := ih hlies hbelow
    obtain ⟨others, hothers, hsegments'⟩ := ih' habove hitems
    refine ⟨ownStages o.foreignField o.unwind a nested :: (deeper ++ others), ?_,
      .cons (segment_ownStages habove ha hnested) (List.rel_append hsegments hsegments')⟩
    rw [List.flatMap_cons, itemStages_eq ha hnested, joinStages_eq, hjoins, hdeeper, hothers,
      List.flatten_cons, List.flatten_append, List.append_assoc]

/-- A segment joins once. -/
theorem Segment.filter_lookups {trail : List ExpandItem} {stages : List Stage}
    (h : Segment o trail stages) :
    ∃ s, (stages.filter fun s => s.operator = "$lookup") = [s] ∧ ∃ a, s.JoinsAt trail a := by
  cases h with
  | @intro _ _ join a d keys sort skip? limit? hjoin =>
    refine ⟨join, ?_, a, hjoin⟩
    simp only [List.cons_append]
    rw [List.filter_cons_of_pos (by simpa using hjoin.operator)]
    cases skip? <;> cases limit? <;> simp [apply_ite (List.filter _), Stage.operator]

/-- So the joins are those of the trails, one for each and in their order. -/
theorem forall₂_lookups {trails : List (List ExpandItem)} {segments : List (List Stage)}
    (h : List.Forall₂ (Segment o) trails segments) :
    List.Forall₂ (fun trail s => ∃ a, s.JoinsAt trail a) trails
      (segments.flatten.filter fun s => s.operator = "$lookup") := by
  induction h with
  | nil => exact .nil
  | cons hsegment _ ih =>
    obtain ⟨s, hs, hjoins⟩ := hsegment.filter_lookups
    rw [List.flatten_cons, List.filter_append, hs]
    exact .cons hjoins ih

end Plan

namespace Compile

open Plan (Segment expandItems preorder)

variable {o : Options} {root? : Option Node} {stages : List Stage}

/-- The associations of a query in preorder, each with those above it. -/
def trails (root? : Option Node) : List (List ExpandItem) :=
  preorder [] (expandItems (expandClause? root?))

/-- **The joins of a pipeline go through the associations in preorder.** Its stages are some that
join nothing, the segments of the associations, and again some that join nothing. So there is one
join for each association, in the order of the trails; behind it stands what the options of that
association say and nothing else; and every join comes behind those of the associations above. -/
theorem joins_in_preorder (h : pipeline o root? = .ok stages) :
    ∃ before segments after, stages = before ++ joins o root? ++ after ∧
      joins o root? = segments.flatten ∧
      (∀ s ∈ before ++ after, s.operator ≠ "$lookup") ∧
      List.Forall₂ (Segment o) (trails root?) segments ∧
      List.Forall₂ (fun trail s => ∃ a, s.JoinsAt trail a) (trails root?)
        (stages.filter fun s => s.operator = "$lookup") ∧
      ∀ before trail after, trails root? = before ++ trail :: after →
        ∀ above, above <+: trail → above ≠ [] → above ≠ trail → above ∈ before := by
  obtain ⟨p, hp, rfl⟩ := exists_plan_of_pipeline h
  obtain ⟨segments, hflatten, hsegments⟩ :=
    Plan.exists_segments .nil (joins_and_isRead_of_plan hp).2
  have hends := @Plan.operator_ne_lookup_of_mem_ends p
  have hpipeline : p.pipeline = p.matchingStage ++ joins o root? ++
      (p.projectStage ++ p.sortStage ++ p.skipStage ++ p.limitStage) := by
    rw [← joins_of_plan hp, Plan.pipeline]
    simp only [List.append_assoc]
  refine ⟨_, segments, _, hpipeline, hflatten, fun s hs => hends hs, hsegments, ?_, ?_⟩
  · have hnone {ends : List Stage} (hsub : ends ⊆ p.matchingStage ++ (p.projectStage ++
        p.sortStage ++ p.skipStage ++ p.limitStage)) :
        (ends.filter fun s => s.operator = "$lookup") = [] :=
      List.filter_eq_nil_iff.mpr fun s hs => by simpa using hends (hsub hs)
    rw [hpipeline, List.filter_append, List.filter_append, hnone (List.subset_append_left _ _),
      hnone (List.subset_append_right _ _), List.nil_append, List.append_nil, joins, hflatten]
    exact Plan.forall₂_lookups hsegments
  · intro before trail after heq above habove hne hproper
    exact Plan.mem_of_preorder_eq heq habove hproper (List.length_pos_iff.mpr hne)

/-- Two associations side by side, the first one with clauses of its own and an association below
it. -/
theorem joins_in_preorder_of_three :
    let buyer : ExpandItem := ⟨.identifier "Buyer", none⟩
    let orders : ExpandItem := ⟨.identifier "Shop/Orders", some (.options
      ⟨none, some (.filter (some (.binary (.comparison .gt) (.identifier "Total")
        (.literal (.integer 5))))), some (.orderBy [.identifier "Rank"]), none, none,
        some (.top (.literal (.integer 3))), some (.expand [buyer])⟩)⟩
    let manager : ExpandItem := ⟨.identifier "Manager", none⟩
    let root : Node := .expand [orders, manager]
    ∃ stages, pipeline {} (some root) = .ok stages ∧
      stages.map Stage.operator = ["$lookup", "$unwind", "$match", "$sort", "$limit", "$lookup",
        "$unwind", "$lookup", "$unwind"] ∧
      (stages.filterMap Stage.joined?).map FieldPath.dotted =
        ["Shop.Orders", "Shop.Orders.Buyer", "Manager"] ∧
      List.Forall₂ (fun trail s => ∃ a, s.JoinsAt trail a) [[orders], [orders, buyer], [manager]]
        (stages.filter fun s => s.operator = "$lookup") := by
  intro buyer orders manager root
  have hstages : (pipeline {} (some root)).toOption.map (fun stages =>
      (stages.map Stage.operator, (stages.filterMap Stage.joined?).map FieldPath.dotted)) =
      some (["$lookup", "$unwind", "$match", "$sort", "$limit", "$lookup", "$unwind", "$lookup",
        "$unwind"], ["Shop.Orders", "Shop.Orders.Buyer", "Manager"]) := by
    decide +kernel
  have htrails : trails (some root) = [[orders], [orders, buyer], [manager]] := by
    simp [trails, preorder, expandClause?, expandItems, Plan.nestedItems, root, orders, buyer,
      manager]
  cases hs : pipeline {} (some root) with
  | error =>
    rw [hs] at hstages
    cases hstages
  | ok stages =>
    rw [hs] at hstages
    obtain ⟨hoperators, hnames⟩ := Prod.mk.inj (Option.some.inj hstages)
    obtain ⟨_, _, _, -, -, -, -, hlookups, -⟩ := joins_in_preorder hs
    rw [htrails] at hlookups
    exact ⟨stages, rfl, hoperators, hnames, hlookups⟩

end Compile

end EntityQuery
