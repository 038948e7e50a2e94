import EntityQuery.Proofs.Compile.Narrowing
import EntityQuery.Proofs.Compile.Projection

/-!
# What joins keep

An association that has a selection pushes a projection into its join. Main statement: besides the
selection the projection keeps what the filter, the order and the associations of the same options
ask for, and nothing else. That is enough for all stages of the association behind its join and for
those of all associations below it.
-/

namespace EntityQuery

open FieldPath (pieces)

namespace Stage

/-- The keys of the projection that a stage pushes into its join, if it pushes one. -/
def pushedKeys? (s : Stage) : Option (List String) :=
  match s.body with
  | .document d =>
    match d.find? "pipeline" with
    | some (.array [.document stage]) =>
      match stage.find? "$project" with
      | some (.document projection) => some projection.keys
      | _ => none
    | _ => none
  | _ => none

/-- The keys hold the field or one above it. -/
def Keeps (keys : List String) (r : FieldPath) : Prop :=
  ∃ k ∈ keys, pieces k <+: r.segments

instance (keys : List String) (r : FieldPath) : Decidable (Keeps keys r) :=
  inferInstanceAs (Decidable (∃ k ∈ keys, _))

theorem pushedKeys?_lookup {a : FieldPath} {f : String} {kept : Selection} (h : kept.Nodup) :
    (Stage.lookup a f kept).pushedKeys? =
      if kept = [] then none else some (kept.map FieldPath.dotted) := by
  cases kept with
  | nil => rfl
  | cons k kept =>
    rw [if_neg (List.cons_ne_nil k kept), ← keys_projectionDocument h]
    rfl

theorem keeps_map_dotted {kept : Selection} {r : FieldPath} :
    Keeps (kept.map FieldPath.dotted) r ↔ kept.covers r = true := by
  simp [Keeps, Selection.covers_iff, FieldPath.covers_iff]

end Stage

open Stage (Keeps)

namespace Plan

variable {o : Options} {p q nested : Plan} {a : FieldPath}

/-! ## What the clauses ask for -/

/-- A clause of the plan asks for the field: it is selected, the filter reads it, the order goes by
it, or it is an association that is joined. -/
def AsksFor (p : Plan) (path : FieldPath) : Prop :=
  path ∈ p.selection ∨ path.dotted ∈ Condition.namesRead p.filter ∨
    path ∈ p.sort.map Prod.fst ∨ path ∈ p.expanded

theorem asksFor_iff (hnotes : NotesFilter p) {path : FieldPath} :
    p.AsksFor path ↔ path ∈ p.fieldsRead := by
  have hfilter : path.dotted ∈ Condition.namesRead p.filter ↔ path ∈ p.filterPaths := by
    rw [hnotes path.dotted]
    constructor
    · rintro ⟨path', hpath', hdotted⟩
      exact FieldPath.dotted_injective hdotted ▸ hpath'
    · exact fun hpath => ⟨path, hpath, rfl⟩
  rw [mem_fieldsRead, AsksFor, hfilter]

/-! ## What a join keeps -/

theorem covers_keptBelow_iff (h : nested.selection ≠ []) {r : FieldPath} :
    Selection.covers (nested.keptBelow a) r = true ↔
      ∃ q : FieldPath, a ++ q ∈ nested.fieldsRead ∧ q.covers r = true := by
  rw [keptBelow_eq h, Selection.covers_foldl_add]
  simp only [List.mem_filterMap, FieldPath.below?_eq_some_iff]
  constructor
  · rintro (hnone | ⟨q, ⟨path, hpath, rfl⟩, hq⟩)
    · cases hnone
    · exact ⟨q, hpath, hq⟩
  · rintro ⟨q, hpath, hq⟩
    exact Or.inr ⟨q, ⟨_, hpath, rfl⟩, hq⟩

/-- A join narrows its records exactly if something is selected. -/
theorem keptBelow_eq_nil_iff (hbelow : ∀ path ∈ nested.selection, ∃ r, path = a ++ r) :
    nested.keptBelow a = [] ↔ nested.selection = [] := by
  constructor
  · intro hkept
    by_contra hselection
    obtain ⟨path, hpath⟩ := List.exists_mem_of_ne_nil _ hselection
    obtain ⟨r, rfl⟩ := hbelow path hpath
    have hcovers : Selection.covers (nested.keptBelow a) r = true :=
      (covers_keptBelow_iff hselection).mpr ⟨r, mem_fieldsRead.mpr (.inl hpath), r.covers_refl⟩
    rw [hkept] at hcovers
    cases hcovers
  · intro hselection
    rw [keptBelow, hselection]
    rfl

/-! ## What is read behind a join -/

/-- The stages read fields by the names of their paths. -/
def NamesPaths (stages : List Stage) : Prop :=
  ∀ s ∈ stages, ∀ name ∈ s.reads, ∃ path : FieldPath, path.dotted = name

theorem namesPaths_laterStages {unwind : Bool} (hnotes : NotesFilter nested)
    (hjoins : NamesPaths nested.joins) : NamesPaths (laterStages unwind a nested) := by
  intro s hs name hname
  rcases reads_laterStages_or_mem_joins hnotes hs hname with ⟨path, -, hdotted⟩ | hjoin
  · exact ⟨path, hdotted⟩
  · exact hjoins s hjoin name hname

theorem Grows.namesPaths (h : Grows o p q) (hp : NamesPaths p.joins) : NamesPaths q.joins := by
  induction h with
  | refl => exact hp
  | @join _ q nested _ a _ _ hnested ih ihnested =>
    have hlater : NamesPaths (laterStages o.unwind a nested) :=
      namesPaths_laterStages (hnested.notesFilter (notesFilter_start _))
        (ihnested fun _ hs => nomatch hs)
    intro s hs name hname
    rcases List.mem_append.mp hs with hs | hs
    · exact ih hp s hs name hname
    · rcases List.mem_cons.mp hs with rfl | hs
      · exact ⟨a, (List.mem_singleton.mp hname).symm⟩
      · exact hlater s hs name hname
  | _ => rename_i ih; exact ih hp

/-- Behind its join an association reads fields strictly below it, each of them at or below one that
a clause asks for. -/
theorem exists_of_mem_reads_laterStages (h : Grows o (.start (some a)) nested) {unwind : Bool}
    {s : Stage} (hs : s ∈ laterStages unwind a nested) {name : String} (hname : name ∈ s.reads) :
    ∃ q r : FieldPath, a ++ q ∈ nested.fieldsRead ∧ q.covers r = true ∧ name = (a ++ r).dotted := by
  have hnotes : NotesFilter nested := h.notesFilter (notesFilter_start _)
  have hpaths : NamesPaths nested.joins := h.namesPaths fun _ hs => nomatch hs
  obtain ⟨path, rfl⟩ := namesPaths_laterStages hnotes hpaths s hs name hname
  obtain ⟨above, habove, hprefix⟩ :=
    reads_laterStages hnotes (h.joinsRead (joinsRead_start _)) hs hname
  obtain ⟨q, rfl⟩ := h.exists_eq_append habove
  rw [FieldPath.pieces_dotted] at hprefix
  have hcovers : (a ++ q).covers path = true := FieldPath.covers_iff.mpr hprefix
  obtain ⟨r, rfl, hr⟩ := FieldPath.exists_eq_append_of_covers hcovers
  exact ⟨q, r, habove, hr, rfl⟩

/-! ## Stages in pipelines -/

theorem infix_flatMap_of_mem {α β : Type} {f : α → List β} {x : α} {xs : List α} (h : x ∈ xs) :
    f x <:+: xs.flatMap f := by
  obtain ⟨before, after, rfl⟩ := List.append_of_mem h
  exact ⟨before.flatMap f, after.flatMap f, by simp⟩

/-- The stages of an item at any depth stand side by side among those of the items above it. -/
theorem ExpandsWithin.itemStages_infix {base? base'? : Option FieldPath}
    {items items' : List ExpandItem} (h : ExpandsWithin base? items base'? items')
    (hread : ∀ item ∈ items, item.IsRead o base?) {item : ExpandItem} (hitem : item ∈ items') :
    itemStages o base'? item <:+: items.flatMap (itemStages o base?) := by
  induction h with
  | here => exact infix_flatMap_of_mem hitem
  | @within base? _ items _ outer a houter ha _ ih =>
    obtain ⟨a', nested, ha', hnested⟩ := hread outer houter
    cases ha.symm.trans ha'
    obtain ⟨hjoins, hnestedRead⟩ := joins_of_readOptions hnested
    -- The deeper joins come last among the stages of the item that they are below.
    have hsuffix : nested.joins <:+: itemStages o base? outer := by
      rw [itemStages_eq ha hnested, joinStages_eq]
      exact (List.suffix_append _ _).isInfix
    exact ((ih hnestedRead hitem).trans (hjoins ▸ hsuffix)).trans (infix_flatMap_of_mem houter)

end Plan

namespace Compile

open Plan (ExpandsWithin expandItems itemStages)

variable {o : Options} {base? : Option FieldPath} {item : ExpandItem}

theorem itemStages_infix_pipeline {root? : Option Node} {stages : List Stage}
    (h : pipeline o root? = .ok stages) {items : List ExpandItem}
    (hwithin : ExpandsWithin none (expandItems (expandClause? root?)) base? items)
    (hitem : item ∈ items) : itemStages o base? item <:+: stages := by
  obtain ⟨p, hp, rfl⟩ := exists_plan_of_pipeline h
  obtain ⟨hjoins, hread⟩ := joins_and_isRead_of_plan hp
  have hpipeline : p.joins <:+: p.pipeline :=
    ⟨p.matchingStage, p.lastStages, by rw [Plan.pipeline_eq, List.append_assoc]⟩
  exact (hwithin.itemStages_infix hread hitem).trans (hjoins ▸ hpipeline)

/-! ## Items -/

/-- **A join keeps just what the stages of its own association need.** The first stage of an item
whose options can be read is its join, and it pushes a projection exactly if something is selected.
What the clauses of the options ask for lies below the association, and the keys of the projection
hold a field below the association exactly if a clause asks for it or for one above it. Whatever the
other stages of the item read lies strictly below the association, and the keys hold it. In every
pipeline that has the item at any depth these stages stand side by side. -/
theorem pushedKeys?_of_item {a : FieldPath} {nested : Plan}
    (ha : item.path.fieldPath base? = .ok a)
    (hnested : (Plan.readOptions o item.options (.start (some a))).result = .ok nested) :
    ∃ join later, itemStages o base? item = join :: later ∧ join.joined? = some a ∧
      (join.pushedKeys?.isSome ↔ nested.selection ≠ []) ∧
      (∀ path, nested.AsksFor path → ∃ q, path = a ++ q) ∧
      (∀ keys, join.pushedKeys? = some keys →
        ∀ r, Keeps keys r ↔ ∃ q, nested.AsksFor (a ++ q) ∧ q.covers r = true) ∧
      (∀ s ∈ later, ∀ name ∈ s.reads, ∃ r, name = (a ++ r).dotted ∧
        ∀ keys, join.pushedKeys? = some keys → Keeps keys r) ∧
      ∀ root? stages items, pipeline o root? = .ok stages →
        ExpandsWithin none (expandItems (expandClause? root?)) base? items → item ∈ items →
          join :: later <:+: stages := by
  have hgrows : Plan.Grows o (.start (some a)) nested := Plan.grows_of_readOptions hnested
  have hnotes : Plan.NotesFilter nested := hgrows.notesFilter (Plan.notesFilter_start _)
  have hkeys := Stage.pushedKeys?_lookup (a := a) (f := o.foreignField)
    (Plan.isMinimal_keptBelow nested a).nodup
  have hnil : nested.keptBelow a = [] ↔ nested.selection = [] :=
    Plan.keptBelow_eq_nil_iff fun path hpath =>
      hgrows.exists_eq_append (Plan.mem_fieldsRead.mpr (.inl hpath))
  have hkeeps (keys : List String)
      (h : (Stage.lookup a o.foreignField (nested.keptBelow a)).pushedKeys? = some keys)
      (r : FieldPath) : Keeps keys r ↔ ∃ q, nested.AsksFor (a ++ q) ∧ q.covers r = true := by
    rw [hkeys] at h
    split at h
    · cases h
    · rename_i hkept
      cases h
      simp only [Stage.keeps_map_dotted, Plan.covers_keptBelow_iff (mt hnil.mpr hkept),
        Plan.asksFor_iff hnotes]
  have hstages : itemStages o base? item =
      .lookup a o.foreignField (nested.keptBelow a) :: Plan.laterStages o.unwind a nested := by
    rw [Plan.itemStages_eq ha hnested, Plan.joinStages_eq_cons]
  refine ⟨_, _, hstages, rfl, ?_, fun path hpath => ?_, hkeeps, ?_, ?_⟩
  · rw [hkeys, Ne, ← hnil]
    split <;> simp_all
  · exact hgrows.exists_eq_append ((Plan.asksFor_iff hnotes).mp hpath)
  · intro s hs name hname
    obtain ⟨q, r, hq, hr, rfl⟩ := Plan.exists_of_mem_reads_laterStages hgrows hs hname
    exact ⟨r, rfl, fun keys h =>
      (hkeeps keys h r).mpr ⟨q, (Plan.asksFor_iff hnotes).mpr hq, hr⟩⟩
  · intro root? stages items hstages' hwithin hitem
    rw [← hstages]
    exact itemStages_infix_pipeline hstages' hwithin hitem

/-- A filter that compares two fields, an order by a field above a selected one, and a deeper
association with a filter of its own. -/
theorem pushedKeys?_of_item_below_shop :
    let shop : FieldPath := ⟨["Shop"], by decide, by decide +kernel⟩
    let orders : FieldPath := ⟨["Shop", "Orders"], by decide, by decide +kernel⟩
    let name (n : String) : Node := .identifier n
    let paid : Node := .filter (some (.binary (.comparison .eq) (name "Paid") (.literal .null)))
    let ranked : Node := .filter (some (.binary (.comparison .lt) (name "Rank") (name "Limits/Max")))
    let buyer : ExpandItem :=
      ⟨name "Buyer", some (.options ⟨none, some paid, none, none, none, none, none⟩)⟩
    let item : ExpandItem :=
      ⟨name "Orders", some (.options
        ⟨none, some ranked, some (.orderBy [name "Address"]),
          some (.select [name "Title", name "Address/City"]), none, none,
          some (.expand [buyer])⟩)⟩
    ∃ nested join later keys,
      (Plan.readOptions {} item.options (.start (some orders))).result = .ok nested ∧
      itemStages {} (some shop) item = join :: later ∧ join.joined? = some orders ∧
      join.pushedKeys? = some keys ∧ keys = ["Title", "Rank", "Limits.Max", "Address", "Buyer"] ∧
      later.flatMap Stage.reads = ["Shop.Orders.Rank", "Shop.Orders.Limits.Max",
        "Shop.Orders.Address", "Shop.Orders.Buyer", "Shop.Orders.Buyer.Paid"] ∧
      nested.selection ≠ [] ∧
      (∀ r, Keeps keys r ↔ ∃ q, nested.AsksFor (orders ++ q) ∧ q.covers r = true) ∧
      ∀ s ∈ later, ∀ name ∈ s.reads, ∃ r, name = (orders ++ r).dotted ∧ Keeps keys r := by
  intro shop orders name paid ranked buyer item
  have horders : item.path.fieldPath (some shop) = .ok orders := by decide +kernel
  have hoptions : (Plan.readOptions {} item.options (.start (some orders))).result.isOk = true := by
    decide +kernel
  have hkeys : (itemStages {} (some shop) item).head?.bind Stage.pushedKeys? =
      some ["Title", "Rank", "Limits.Max", "Address", "Buyer"] := by
    decide +kernel
  have hreads : (itemStages {} (some shop) item).tail.flatMap Stage.reads =
      ["Shop.Orders.Rank", "Shop.Orders.Limits.Max", "Shop.Orders.Address",
        "Shop.Orders.Buyer", "Shop.Orders.Buyer.Paid"] := by
    decide +kernel
  cases hnested : (Plan.readOptions {} item.options (.start (some orders))).result with
  | error =>
    rw [hnested] at hoptions
    cases hoptions
  | ok nested =>
    obtain ⟨join, later, hstages, hjoined, hpushed, -, hkeeps, hlater, -⟩ :=
      pushedKeys?_of_item horders hnested
    rw [hstages] at hkeys hreads
    refine ⟨nested, join, later, _, rfl, hstages, hjoined, hkeys, rfl, hreads, ?_,
      hkeeps _ hkeys, ?_⟩
    · exact hpushed.mp (Option.isSome_of_eq_some hkeys)
    · intro s hs name hname
      obtain ⟨r, hr, hkept⟩ := hlater s hs name hname
      exact ⟨r, hr, hkept _ hkeys⟩

end Compile

end EntityQuery
