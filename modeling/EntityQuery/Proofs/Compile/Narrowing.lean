import EntityQuery.Proofs.Compile.Root
import EntityQuery.Proofs.Plan.Narrowing

/-!
# What the joins of a query take away from one another

What a join keeps is settled by the options of its own association. So the stages of a query read
what joins before them took away only across associations: when one association narrows what another
one of the same clause goes on from, or what the query is ordered by.
-/

namespace EntityQuery

/-- The path of the item can be read below the base, and its options below this path. -/
def ExpandItem.IsRead (o : Options) (base? : Option FieldPath) (item : ExpandItem) : Prop :=
  ∃ a nested, item.path.fieldPath base? = .ok a ∧
    (Plan.readOptions o item.options (.start (some a))).result = .ok nested

namespace Plan

variable {o : Options} {p q : Plan}

/-! ## The stages of items -/

/-- The items of the expand clause in the options of an item. -/
def nestedItems (item : ExpandItem) : List ExpandItem :=
  expandItems (Compile.expandClause? item.options)

/-- The stages that an item adds to a plan with this base. -/
def itemStages (o : Options) (base? : Option FieldPath) (item : ExpandItem) : List Stage :=
  (readItem o item (.start base?)).plan.joins

theorem itemStages_eq {base? : Option FieldPath} {item : ExpandItem} {a : FieldPath}
    {nested : Plan} (ha : item.path.fieldPath base? = .ok a)
    (hnested : (readOptions o item.options (.start (some a))).result = .ok nested) :
    itemStages o base? item = joinStages o.foreignField o.unwind a nested := by
  obtain ⟨path, options?⟩ := item
  dsimp only at ha hnested
  have hbase : (start base?).base? = base? := rfl
  unfold itemStages
  rw [readItem, hbase, ha]
  dsimp only
  rw [hnested]
  rfl

/-- Items add their stages one after the other. -/
theorem joins_of_readItems {items : List ExpandItem} (h : (readItems o items p).result = .ok q) :
    q.joins = p.joins ++ items.flatMap (itemStages o p.base?) ∧
      ∀ item ∈ items, item.IsRead o p.base? := by
  induction items generalizing p with
  | nil =>
    rw [readItems, Outcome.result_ok] at h
    cases h
    simp
  | cons item items ih =>
    obtain ⟨r, hitem, hitems⟩ := Outcome.result_andThen_eq_ok.mp h
    obtain ⟨a, nested, ha, hnested, rfl⟩ := readItem_eq_ok hitem
    obtain ⟨hjoins, hread⟩ := ih hitems
    have hbase (stages : List Stage) : (p.join a stages).base? = p.base? := rfl
    rw [hbase] at hjoins hread
    refine ⟨?_, List.forall_mem_cons.mpr ⟨⟨a, nested, ha, hnested⟩, hread⟩⟩
    rw [hjoins, List.flatMap_cons, itemStages_eq ha hnested, ← List.append_assoc]
    rfl

/-- The plan for an item comes from the items below it, which are read when nothing has been joined
yet. -/
theorem exists_readItems_of_readOptions {item : ExpandItem} {a : FieldPath} {nested : Plan}
    (h : (readOptions o item.options (.start (some a))).result = .ok nested) :
    ∃ r : Plan, r.base? = some a ∧ r.expanded = [] ∧ r.joins = [] ∧
      (readItems o (nestedItems item) r).result = .ok nested := by
  obtain ⟨path, options?⟩ := item
  cases options? with
  | none => exact ⟨.start (some a), rfl, rfl, rfl, h⟩
  | some n =>
    cases n with
    | options clauses =>
      obtain ⟨r, hbase, hexpanded, hjoins, -, hitems⟩ := exists_readItems_of_readClauses h
      exact ⟨r, hbase, hexpanded, hjoins, hitems⟩
    | _ => cases h

/-- So the plan joins what the items below join, and all of these are read. -/
theorem joins_of_readOptions {item : ExpandItem} {a : FieldPath} {nested : Plan}
    (h : (readOptions o item.options (.start (some a))).result = .ok nested) :
    nested.joins = (nestedItems item).flatMap (itemStages o (some a)) ∧
      ∀ next ∈ nestedItems item, next.IsRead o (some a) := by
  obtain ⟨r, hbase, -, hjoins, hitems⟩ := exists_readItems_of_readOptions h
  have hread := joins_of_readItems hitems
  rwa [hbase, hjoins, List.nil_append] at hread

/-! ## Items at any depth -/

/-- The second items are those of an expand clause within the first ones, or these themselves. -/
inductive ExpandsWithin : Option FieldPath → List ExpandItem → Option FieldPath →
    List ExpandItem → Prop
  | here {base? : Option FieldPath} {items : List ExpandItem} :
      ExpandsWithin base? items base? items
  | within {base? base'? : Option FieldPath} {items items' : List ExpandItem} {item : ExpandItem}
      {a : FieldPath} (hitem : item ∈ items) (ha : item.path.fieldPath base? = .ok a)
      (h : ExpandsWithin (some a) (nestedItems item) base'? items') :
      ExpandsWithin base? items base'? items'

theorem ExpandsWithin.isRead {base? base'? : Option FieldPath} {items items' : List ExpandItem}
    (hwithin : ExpandsWithin base? items base'? items') (h : ∀ item ∈ items, item.IsRead o base?) :
    ∀ item ∈ items', item.IsRead o base'? := by
  induction hwithin with
  | here => exact h
  | within hitem ha _ ih =>
    obtain ⟨a, nested, ha', hnested⟩ := h _ hitem
    cases ha.symm.trans ha'
    exact ih (joins_of_readOptions hnested).2

/-- The stages of no item take away what those of a later one read. What this asks of the paths,
selections and clauses of the items is told by `keepApart_iff`. -/
def KeepApart (o : Options) (base? : Option FieldPath) (items : List ExpandItem) : Prop :=
  items.Pairwise fun i j =>
    ∀ s ∈ itemStages o base? i, ∀ t ∈ itemStages o base? j, s.KeepsFor t

theorem sizeOf_expandItems_le (n? : Option Node) : sizeOf (expandItems n?) ≤ sizeOf n? := by
  cases n? with
  | none => exact Nat.le_refl 1
  | some n =>
    cases n with
    | expand items =>
      simp only [expandItems, Option.some.sizeOf_spec, Node.expand.sizeOf_spec]
      omega
    | _ => simp [expandItems]

theorem sizeOf_expandClause?_le (n? : Option Node) :
    sizeOf (Compile.expandClause? n?) ≤ sizeOf n? := by
  unfold Compile.expandClause?
  split
  · rename_i clauses
    obtain ⟨resource?, filter?, orderBy?, select?, skip?, top?, expand?⟩ := clauses
    simp only [Option.some.sizeOf_spec, Node.options.sizeOf_spec, QueryOptions.mk.sizeOf_spec]
    omega
  · exact Nat.le_refl _

theorem sizeOf_nestedItems_lt_item (item : ExpandItem) :
    sizeOf (nestedItems item) < sizeOf item := by
  obtain ⟨path, options?⟩ := item
  have hnested : sizeOf (nestedItems ⟨path, options?⟩) ≤ sizeOf options? :=
    Nat.le_trans (sizeOf_expandItems_le _) (sizeOf_expandClause?_le _)
  simp only [ExpandItem.mk.sizeOf_spec]
  omega

theorem sizeOf_nestedItems_lt {items : List ExpandItem} {item : ExpandItem} (h : item ∈ items) :
    sizeOf (nestedItems item) < sizeOf items :=
  Nat.lt_trans (sizeOf_nestedItems_lt_item item) (List.sizeOf_lt_of_mem h)

/-- What one item's stages take away from one another is taken away among the items below it. -/
theorem pairwise_flatMap_itemStages {base? : Option FieldPath} {items : List ExpandItem}
    (hread : ∀ item ∈ items, item.IsRead o base?) :
    (items.flatMap (itemStages o base?)).Pairwise Stage.KeepsFor ↔
      ∀ base'? items', ExpandsWithin base? items base'? items' → KeepApart o base'? items' := by
  -- For each item the question is the same about the items below it.
  have hnested {item : ExpandItem} (hitem : item ∈ items) {a : FieldPath}
      (ha : item.path.fieldPath base? = .ok a) :
      (itemStages o base? item).Pairwise Stage.KeepsFor ↔
        ∀ base'? items', ExpandsWithin (some a) (nestedItems item) base'? items' →
          KeepApart o base'? items' := by
    obtain ⟨a', nested, ha', hnested⟩ := hread item hitem
    cases ha.symm.trans ha'
    obtain ⟨hjoins, hbelow⟩ := joins_of_readOptions hnested
    have hsmaller := sizeOf_nestedItems_lt hitem
    rw [itemStages_eq ha hnested, pairwise_joinStages (grows_of_readOptions hnested), hjoins]
    exact pairwise_flatMap_itemStages hbelow
  rw [List.pairwise_flatMap]
  constructor
  · rintro ⟨hitems, hsiblings⟩ base'? items' hwithin
    cases hwithin with
    | here => exact hsiblings
    | within hitem ha hwithin => exact (hnested hitem ha).mp (hitems _ hitem) base'? items' hwithin
  · intro hall
    refine ⟨fun item hitem => ?_, hall _ _ .here⟩
    obtain ⟨a, -, ha, -⟩ := hread item hitem
    exact (hnested hitem ha).mpr fun base'? items' hwithin =>
      hall base'? items' (.within hitem ha hwithin)
termination_by sizeOf items

end Plan

/-! ## Whole pipelines -/

namespace Compile

open Plan (ExpandsWithin KeepApart expandItems)

variable {o : Options} {root? : Option Node} {q : FindQuery} {stages : List Stage}

/-- The joins of a plan are those of the items of its expand clause, and all of these are read. -/
theorem joins_and_isRead_of_plan {p : Plan} (h : plan o root? = .ok p) :
    p.joins = (expandItems (expandClause? root?)).flatMap (Plan.itemStages o none) ∧
      ∀ item ∈ expandItems (expandClause? root?), item.IsRead o none := by
  obtain ⟨r, hbase, -, hjoins, -, hitems⟩ := exists_readItems_of_plan h
  have hread := Plan.joins_of_readItems hitems
  rwa [hbase, hjoins, List.nil_append] at hread

/-- **No stage reads what an earlier join took away, exactly if the items of each expand clause keep
apart and no join takes away a key of the order.** The clause may be that of the root or stand in
the options of an association at any depth. Among the stages of one association, with its own clauses
and the joins below it, nothing is ever taken away that is read later. -/
theorem pairwise_keepsFor_iff (hq : find o root? = .ok q) (hs : pipeline o root? = .ok stages) :
    stages.Pairwise Stage.KeepsFor ↔
      (∀ base? items, ExpandsWithin none (expandItems (expandClause? root?)) base? items →
        KeepApart o base? items) ∧ ∀ s ∈ stages, s.KeepsFor (.sort q.sort) := by
  obtain ⟨p, hp, rfl, rfl⟩ := exists_plan hq hs
  obtain ⟨hjoins, hread⟩ := joins_and_isRead_of_plan hp
  rw [Plan.pairwise_pipeline, hjoins, Plan.pairwise_flatMap_itemStages hread]
  rfl

/-- An association with a selection, an order and a join of its own beside a second association, and
an order of the records by what the first one selects. -/
theorem keepsFor_side_by_side :
    let inner : Node := .options
      ⟨none, none, some (.orderBy [.identifier "Rank"]), some (.select [.identifier "Title"]), none,
        none, some (.expand [⟨.identifier "Buyer", none⟩])⟩
    let root : Node := .options
      ⟨none, none, some (.orderBy [.identifier "Orders/Title"]), none, none, none,
        some (.expand [⟨.identifier "Orders", some inner⟩, ⟨.identifier "Manager", none⟩])⟩
    ∃ q stages, find {} (some root) = .ok q ∧ pipeline {} (some root) = .ok stages ∧
      stages.length = 8 ∧ stages.Pairwise Stage.KeepsFor ∧
      (∀ base? items, ExpandsWithin none (expandItems (expandClause? (some root))) base? items →
        KeepApart {} base? items) ∧ ∀ s ∈ stages, s.KeepsFor (.sort q.sort) := by
  intro inner root
  have hfind : (find {} (some root)).isOk = true := by decide +kernel
  have hstages : (pipeline {} (some root)).toOption.map (fun stages =>
      (stages.length, decide (stages.Pairwise Stage.KeepsFor))) = some (8, true) := by
    decide +kernel
  cases hq : find {} (some root) with
  | error =>
    rw [hq] at hfind
    cases hfind
  | ok q => cases hs : pipeline {} (some root) with
    | error =>
      rw [hs] at hstages
      cases hstages
    | ok stages =>
      rw [hs] at hstages
      obtain ⟨hlength, hkeeps⟩ := Prod.mk.inj (Option.some.inj hstages)
      have hpairwise : stages.Pairwise Stage.KeepsFor := of_decide_eq_true hkeeps
      exact ⟨q, stages, rfl, rfl, hlength, hpairwise, (pairwise_keepsFor_iff hq hs).mp hpairwise⟩

/-- The join of the first association keeps only the field that is selected, and the second
association is a field of the same records that goes with the others. -/
theorem not_keepsFor_of_nested_associations :
    let inner : Node := .options
      ⟨none, none, none, some (.select [.identifier "X"]), none, none, none⟩
    let root : Node := .options
      ⟨none, none, none, none, none, none,
        some (.expand [⟨.identifier "A", some inner⟩, ⟨.identifier "A/B", none⟩])⟩
    ∃ stages, pipeline {} (some root) = .ok stages ∧ ¬stages.Pairwise Stage.KeepsFor := by
  intro inner root
  have hstages : (pipeline {} (some root)).toOption.map (fun stages =>
      decide (stages.Pairwise Stage.KeepsFor)) = some false := by
    decide +kernel
  cases hs : pipeline {} (some root) with
  | error =>
    rw [hs] at hstages
    cases hstages
  | ok stages =>
    rw [hs] at hstages
    exact ⟨stages, rfl, of_decide_eq_false (Option.some.inj hstages)⟩

end Compile

end EntityQuery
