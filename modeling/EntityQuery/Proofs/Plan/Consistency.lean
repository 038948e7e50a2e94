import EntityQuery.Proofs.Plan.Narrowing

/-!
# What holds of every plan

The places of a plan are filled one by one, and the reading of a clause can stop in the middle. Yet
they always agree with one another: the filter with the fields that are noted for it, the
associations with their joins, and all of them with the base. This is shown of each change that
reading makes to a plan, and so it holds of every plan that comes up while queries are read, whether
it is the plan of a query or that of an association.
-/

namespace EntityQuery

namespace Plan

variable {o : Options} {p q : Plan}

/-! ## Single places -/

/-- The name of a collection is set once. -/
theorem Grows.collection?_eq (h : Grows o p q) {name : String} (hp : p.collection? = some name) :
    q.collection? = some name := by
  induction h with
  | refl => exact hp
  | setCollection name' _ ih =>
    show (_ <|> some name') = some name
    rw [ih hp]
    rfl
  | join _ _ _ ih _ => exact ih hp
  | _ => rename_i ih; exact ih hp

/-- A plan sorts by a path once, however often the path is named. -/
theorem Grows.nodup_sort (h : Grows o p q) (hp : (p.sort.map Prod.fst).Nodup) :
    (q.sort.map Prod.fst).Nodup := by
  induction h with
  | refl => exact hp
  | sortBy d _ _ ih =>
    show ((setDirection _ d _).map Prod.fst).Nodup
    rw [map_fst_setDirection]
    exact nodup_foldl_addNew (ih hp) [_]
  | join _ _ _ ih _ => exact ih hp
  | _ => rename_i ih; exact ih hp

theorem Grows.nodup_filterPaths (h : Grows o p q) (hp : p.filterPaths.Nodup) :
    q.filterPaths.Nodup := by
  induction h with
  | refl => exact hp
  | addFilter _ _ ih => exact nodup_foldl_addNew (ih hp) _
  | join _ _ _ ih _ => exact ih hp
  | _ => rename_i ih; exact ih hp

/-- Every association that is noted as joined has a join. -/
def NotesJoins (p : Plan) : Prop :=
  ∀ a ∈ p.expanded, ∃ f kept, .lookup a f kept ∈ p.joins

theorem Grows.notesJoins (h : Grows o p q) (hp : NotesJoins p) : NotesJoins q := by
  induction h with
  | refl => exact hp
  | join _ _ _ ih _ =>
    intro a ha
    rcases List.mem_append.mp ha with ha | ha
    · obtain ⟨f, kept, hjoin⟩ := ih hp a ha
      exact ⟨f, kept, List.mem_append_left _ hjoin⟩
    · -- The association that is new has brought its join with it, as the first of its stages.
      cases List.mem_singleton.mp ha
      exact ⟨_, _, List.mem_append_right _ List.mem_cons_self⟩
  | _ => rename_i ih; exact ih hp

/-! ## All places together -/

/-- The places of a plan agree with one another. -/
structure Consistent (p : Plan) : Prop where
  notesFilter : NotesFilter p
  nodup_filterPaths : p.filterPaths.Nodup
  nodup_sort : (p.sort.map Prod.fst).Nodup
  isMinimal_selection : p.selection.IsMinimal
  readsBelow : ReadsBelow p
  wellJoined : WellJoined p
  notesJoins : NotesJoins p

theorem consistent_start (base? : Option FieldPath) : Consistent (.start base?) where
  notesFilter := notesFilter_start base?
  nodup_filterPaths := List.nodup_nil
  nodup_sort := List.nodup_nil
  isMinimal_selection := Selection.isMinimal_nil
  readsBelow := readsBelow_start base?
  wellJoined := wellJoined_start base?
  notesJoins := by simp [NotesJoins, start]

/-- **Reading keeps a plan consistent**, however far it gets. -/
theorem Grows.consistent (h : Grows o p q) (hp : Consistent p) : Consistent q where
  notesFilter := h.notesFilter hp.notesFilter
  nodup_filterPaths := h.nodup_filterPaths hp.nodup_filterPaths
  nodup_sort := h.nodup_sort hp.nodup_sort
  isMinimal_selection := h.isMinimal_selection hp.isMinimal_selection
  readsBelow := h.readsBelow hp.readsBelow
  wellJoined := h.wellJoined hp.wellJoined
  notesJoins := h.notesJoins hp.notesJoins

/-! ## Plans that arise -/

/-- The plans that are filled while queries are read, each with its base. The plan of a query starts
empty and takes one node after the other, each under options of its own. An association that is named
in a plan gets a plan of its own, for the options that stand beside it. No node has to be read to its
end. -/
inductive Arises : Option FieldPath → Plan → Prop
  | start : Arises none (.start none)
  | read (o : Options) (root? : Option Node) {base? : Option FieldPath} {p : Plan}
      (h : Arises base? p) : Arises base? (readRoot o root? p).plan
  | nested (o : Options) (options? : Option Node) {base? : Option FieldPath} {p : Plan}
      {path : Node} {association : FieldPath} (h : Arises base? p)
      (hpath : path.fieldPath p.base? = .ok association) :
      Arises (some association) (readOptions o options? (.start (some association))).plan

variable {base? : Option FieldPath}

theorem Arises.base?_eq (h : Arises base? p) : p.base? = base? := by
  induction h with
  | start => rfl
  | read o root? _ ih => exact (grows_readRoot (o := o) root? _).base?_eq.trans ih
  | nested o options? _ _ _ => exact (grows_readOptions (o := o) options? _).base?_eq

theorem Arises.consistent (h : Arises base? p) : Consistent p := by
  induction h with
  | start => exact consistent_start none
  | read o root? _ ih => exact (grows_readRoot root? _).consistent ih
  | nested o options? _ _ _ =>
    exact (grows_readOptions options? _).consistent (consistent_start _)

/-- **The places of every plan that arises agree with one another**: the filter reads the fields that
are noted for it and no other, no selected path is above another, what is noted lies strictly below
the base, each join lies at or below an association that is noted, and each of these has its join.
The order and the selection of the plan have one entry for each of their paths, and nothing that is
read later changes its collection. -/
theorem consistent_of_arises (h : Arises base? p) :
    p.base? = base? ∧ Consistent p ∧
      (sortDocument p.sort).Lists (p.sort.map fun key => (key.1, .int key.2.sign)) ∧
      (projectionDocument p.selection).Lists (p.selection.map fun path => (path, .int 1)) ∧
      ∀ name, p.collection? = some name →
        ∀ o roots, (readAll o roots p).collection? = some name := by
  have hp : Consistent p := h.consistent
  refine ⟨h.base?_eq, hp, lists_sortDocument hp.nodup_sort,
    lists_projectionDocument hp.isMinimal_selection.nodup, ?_⟩
  intro name hname o roots
  exact (grows_readAll roots p).collection?_eq hname

/-- The plan of an association whose second association cannot be read. -/
theorem consistent_of_arises_below_dealer :
    let dealer : FieldPath := ⟨["Dealer"], by decide, by decide +kernel⟩
    let name (n : String) : Node := .identifier n
    let older : Node := .binary (.comparison .gt) (name "Age") (.literal (.integer 18))
    let clauses : QueryOptions :=
      { resource := some (name "People")
        filter := some (.filter (some (.binary .and older (.unary .not older))))
        orderBy := some (.orderBy [name "Age", .orderKey (name "Age") (some .descending)])
        select := some (.select [name "Address/City", name "Address"])
        skip := none
        top := none
        expand := some (.expand [⟨name "Agent", none⟩, ⟨older, none⟩]) }
    let x := readOptions {} (some (.options clauses)) (.start (some dealer))
    let p := x.plan
    x.error?.isSome = true ∧ p.collection? = some "People" ∧
      p.filterPaths.map FieldPath.dotted = ["Dealer.Age"] ∧
      p.selection.map FieldPath.dotted = ["Dealer.Address"] ∧
      p.expanded.map FieldPath.dotted = ["Dealer.Agent"] ∧
      p.base? = some dealer ∧ Consistent p ∧
      (sortDocument p.sort).Lists (p.sort.map fun key => (key.1, .int key.2.sign)) ∧
      (projectionDocument p.selection).Lists (p.selection.map fun path => (path, .int 1)) ∧
      ∀ name, p.collection? = some name →
        ∀ o roots, (readAll o roots p).collection? = some name := by
  intro dealer name older clauses x p
  have hdealer : (name "Dealer").fieldPath (Plan.start none).base? = .ok dealer := by
    decide +kernel
  refine ⟨by decide +kernel, by decide +kernel, by decide +kernel, by decide +kernel,
    by decide +kernel, ?_⟩
  exact consistent_of_arises (.nested {} (some (.options clauses)) .start hdealer)

end Plan

end EntityQuery
