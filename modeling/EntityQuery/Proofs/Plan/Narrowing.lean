import EntityQuery.Proofs.FieldPath.Below
import EntityQuery.Proofs.Plan.Filter

/-!
# What joins take away

A join that narrows its records takes their other fields away from every stage after it. The stages
of one association, and the joins below it, read only what the association's own join keeps for
them. What is read by the stages of other associations is not looked at when a join is narrowed.
-/

namespace EntityQuery

open FieldPath (pieces)

/-! ## What stages read -/

namespace Stage

/-- The fields that a stage reads in the records that come to it, under their names. -/
def reads : Stage → List String
  | .matching condition => Condition.namesRead condition
  | .lookup association _ _ => [association.dotted]
  | .sort keys => keys.map fun k => k.1.dotted
  -- The other stages put records together or count them, whatever is in their fields.
  | .unwind _ | .project _ | .skip _ | .limit _ => []

/-- The first stage does not take away what the second one reads: if it is a join that keeps only
some fields of its records, each field below the association that the second stage reads is at or
below one of these. -/
def KeepsFor : Stage → Stage → Prop
  | .lookup association _ kept, t =>
    kept ≠ [] → ∀ name ∈ t.reads, association.segments <+: pieces name →
      association.segments ≠ pieces name →
        ∃ k ∈ kept, (association ++ k).segments <+: pieces name
  | _, _ => True

instance : (s t : Stage) → Decidable (s.KeepsFor t)
  | .lookup association _ kept, t =>
    inferInstanceAs (Decidable (kept ≠ [] → ∀ name ∈ t.reads,
      association.segments <+: pieces name → association.segments ≠ pieces name →
        ∃ k ∈ kept, (association ++ k).segments <+: pieces name))
  | .matching _, _ | .unwind _, _ | .project _, _ | .sort _, _ | .skip _, _ | .limit _, _ =>
    inferInstanceAs (Decidable True)

variable {t : Stage}

/-- Only joins take fields away. -/
theorem keepsFor_of_isPlain {s : Stage} (h : s.isPlain = true) (t : Stage) : s.KeepsFor t := by
  cases s with
  | lookup | project => cases h
  | _ => trivial

theorem keepsFor_of_reads_eq_nil (s : Stage) (h : t.reads = []) : s.KeepsFor t := by
  cases s with
  | lookup =>
    intro _ name hname
    rw [h] at hname
    cases hname
  | _ => trivial

/-- A join keeps what is read of its association if it keeps each field that this belongs to. -/
theorem keepsFor_of_covers {a : FieldPath} {f : String} {kept : Selection}
    (h : kept ≠ [] → ∀ name ∈ t.reads, name = a.dotted ∨
      ∃ r, kept.covers r = true ∧ (a ++ r).segments <+: pieces name) :
    (Stage.lookup a f kept).KeepsFor t := by
  intro hkept name hname _ hstrict
  rcases h hkept name hname with rfl | ⟨r, hcovers, hbelow⟩
  · exact absurd (FieldPath.pieces_dotted a).symm hstrict
  · obtain ⟨k, hk, hkr⟩ := Selection.covers_iff.mp hcovers
    have habove : (a ++ k).segments <+: (a ++ r).segments :=
      FieldPath.covers_iff.mp (by rwa [FieldPath.covers_append_append])
    exact ⟨k, hk, habove.trans hbelow⟩

end Stage

/-! ## Fields below the base -/

/-- A path comes behind the others unless it is there already. -/
theorem map_fst_setDirection (path : FieldPath) (d : Direction) (sort : List SortKey) :
    (setDirection path d sort).map Prod.fst = addNew (sort.map Prod.fst) path := by
  induction sort with
  | nil => rfl
  | cons key sort ih =>
    obtain ⟨first, e⟩ := key
    rw [setDirection]
    by_cases h : first = path
    · simp [h, addNew]
    · rw [if_neg h, List.map_cons, ih, addNew, addNew]
      by_cases hmem : path ∈ sort.map Prod.fst
      · simp [hmem]
      · simp only [List.map_cons, List.mem_cons, Ne.symm h, hmem, or_self, if_false,
          List.cons_append]

theorem mem_setDirection {p q : FieldPath} {d : Direction} {keys : List SortKey}
    (h : q ∈ (setDirection p d keys).map Prod.fst) : q = p ∨ q ∈ keys.map Prod.fst := by
  rw [map_fst_setDirection, addNew] at h
  by_cases hp : p ∈ keys.map Prod.fst
  · rw [if_pos hp] at h
    exact Or.inr h
  · rw [if_neg hp, List.mem_append, List.mem_singleton] at h
    exact h.symm

namespace Plan

variable {o : Options} {p q : Plan}

/-- Each item names one path. -/
theorem map_selectedPath {base? : Option FieldPath} {items : List Node} {paths : List FieldPath}
    (h : selectedPaths base? items = .ok paths) :
    items.map (selectedPath base?) = paths.map .ok := by
  induction items generalizing paths with
  | nil =>
    cases h
    rfl
  | cons item items ih =>
    rw [selectedPaths] at h
    split at h
    · cases h
    · rename_i path hpath
      obtain ⟨rest, hrest, rfl⟩ := exists_of_map_eq_ok h
      rw [List.map_cons, hpath, ih hrest, List.map_cons]

theorem isBelow_of_selectedPath {base? : Option FieldPath} {item : Node} {path : FieldPath}
    (h : selectedPath base? item = .ok path) : path.IsBelow base? := by
  cases item with
  | identifier name => exact Node.isBelow_of_fieldPath (n := .identifier name) h
  | _ => cases h

theorem isBelow_of_mem_selectedPaths {base? : Option FieldPath} {items : List Node}
    {paths : List FieldPath} (h : selectedPaths base? items = .ok paths) {path : FieldPath}
    (hpath : path ∈ paths) : path.IsBelow base? := by
  obtain ⟨item, -, hitem⟩ := (mem_iff_of_map_eq_ok (map_selectedPath h)).mp hpath
  exact isBelow_of_selectedPath hitem

/-- Every field that a plan reads or keeps lies below its base. -/
structure ReadsBelow (p : Plan) : Prop where
  selection : ∀ path ∈ p.selection, path.IsBelow p.base?
  filterPaths : ∀ path ∈ p.filterPaths, path.IsBelow p.base?
  sort : ∀ path ∈ p.sort.map Prod.fst, path.IsBelow p.base?
  expanded : ∀ path ∈ p.expanded, path.IsBelow p.base?

theorem mem_fieldsRead {path : FieldPath} :
    path ∈ p.fieldsRead ↔ path ∈ p.selection ∨ path ∈ p.filterPaths ∨
      path ∈ p.sort.map Prod.fst ∨ path ∈ p.expanded := by
  simp only [fieldsRead, List.mem_append, or_assoc]

theorem ReadsBelow.isBelow (h : ReadsBelow p) {path : FieldPath} (hpath : path ∈ p.fieldsRead) :
    path.IsBelow p.base? := by
  rcases mem_fieldsRead.mp hpath with hselected | hfiltered | hsorted | hexpanded
  · exact h.selection path hselected
  · exact h.filterPaths path hfiltered
  · exact h.sort path hsorted
  · exact h.expanded path hexpanded

theorem readsBelow_start (base? : Option FieldPath) : ReadsBelow (.start base?) where
  selection := by simp [start]
  filterPaths := by simp [start]
  sort := by simp [start]
  expanded := by simp [start]

theorem Grows.readsBelow (h : Grows o p q) (hp : ReadsBelow p) : ReadsBelow q := by
  induction h with
  | refl => exact hp
  | addFilter _ hd ih =>
    refine ⟨(ih hp).selection, fun path hpath => ?_, (ih hp).sort, (ih hp).expanded⟩
    rcases mem_foldl_addNew.mp hpath with hpath | hpath
    · exact (ih hp).filterPaths path hpath
    · obtain ⟨n, hn⟩ := (Condition.built_ofNode _ hd).exists_fieldPath hpath
      exact Node.isBelow_of_fieldPath hn
  | select _ hpaths ih =>
    refine ⟨fun path hpath => ?_, (ih hp).filterPaths, (ih hp).sort, (ih hp).expanded⟩
    -- A path that goes into a selection can push others out, but it brings in only itself.
    rcases Selection.mem_of_mem_foldl_add hpath with hpath | hpath
    · exact (ih hp).selection path hpath
    · exact isBelow_of_mem_selectedPaths hpaths hpath
  | sortBy d _ hkey ih =>
    refine ⟨(ih hp).selection, (ih hp).filterPaths, fun path hpath => ?_, (ih hp).expanded⟩
    rcases mem_setDirection hpath with rfl | hpath
    · exact Node.isBelow_of_fieldPath hkey
    · exact (ih hp).sort path hpath
  | join _ hassociation _ ih _ =>
    refine ⟨(ih hp).selection, (ih hp).filterPaths, (ih hp).sort, fun path hpath => ?_⟩
    rcases List.mem_append.mp hpath with hpath | hpath
    · exact (ih hp).expanded path hpath
    · cases List.mem_singleton.mp hpath
      exact Node.isBelow_of_fieldPath hassociation
  | _ =>
    -- The other changes note no field.
    rename_i ih
    exact ⟨(ih hp).selection, (ih hp).filterPaths, (ih hp).sort, (ih hp).expanded⟩

/-- The plan of an association reads only fields below it. -/
theorem Grows.exists_eq_append {a path : FieldPath} (h : Grows o (.start (some a)) p)
    (hpath : path ∈ p.fieldsRead) : ∃ r, path = a ++ r :=
  (h.readsBelow (readsBelow_start _)).isBelow hpath a h.base?_eq

/-- A join keeps each field that the nested plan reads, if it narrows its records at all. -/
theorem covers_keptBelow {nested : Plan} {a r : FieldPath} (hkept : nested.keptBelow a ≠ [])
    (h : a ++ r ∈ nested.fieldsRead) : Selection.covers (nested.keptBelow a) r = true := by
  have hselection : nested.selection ≠ [] := by
    intro hnil
    rw [keptBelow, hnil] at hkept
    exact hkept rfl
  rw [keptBelow_eq hselection, Selection.covers_foldl_add]
  -- Below the association nothing is left of the path but what it is told by from there on.
  have hr : (a ++ r).below? a = some r := FieldPath.below?_eq_some_iff.mpr rfl
  exact Or.inr ⟨r, List.mem_filterMap.mpr ⟨_, h, hr⟩, r.covers_refl⟩

/-! ## What the stages of an association read -/

theorem mem_reads_matchingStage_iff {name : String} :
    (∃ s ∈ p.matchingStage, name ∈ s.reads) ↔ name ∈ Condition.namesRead p.filter := by
  unfold matchingStage
  split
  · rename_i hempty
    simp [Condition.namesRead_of_isEmpty hempty]
  · simp [Stage.reads]

theorem mem_reads_sortStage_iff {name : String} :
    (∃ s ∈ p.sortStage, name ∈ s.reads) ↔ ∃ path ∈ p.sort.map Prod.fst, path.dotted = name := by
  unfold sortStage
  split
  · rename_i hempty
    simp [List.isEmpty_iff.mp hempty]
  · simp [Stage.reads]

theorem reads_eq_nil_of_mem_skipStage {s : Stage} (h : s ∈ p.skipStage) : s.reads = [] := by
  obtain ⟨count, -, rfl⟩ := Option.map_eq_some_iff.mp (Option.mem_toList.mp h)
  rfl

theorem reads_eq_nil_of_mem_limitStage {s : Stage} (h : s ∈ p.limitStage) : s.reads = [] := by
  obtain ⟨count, -, rfl⟩ := Option.map_eq_some_iff.mp (Option.mem_toList.mp h)
  rfl

/-- The stages of an association between its join and the deeper ones. -/
def clauseStages (unwind : Bool) (association : FieldPath) (nested : Plan) : List Stage :=
  (if unwind then [.unwind association] else []) ++ nested.matchingStage ++ nested.sortStage ++
    nested.skipStage ++ nested.limitStage

/-- They read what the filter reads, and the keys of the order. -/
theorem mem_reads_clauseStages_iff {unwind : Bool} {a : FieldPath} {nested : Plan}
    {name : String} :
    (∃ s ∈ clauseStages unwind a nested, name ∈ s.reads) ↔
      name ∈ Condition.namesRead nested.filter ∨
        ∃ path ∈ nested.sort.map Prod.fst, path.dotted = name := by
  rw [← mem_reads_matchingStage_iff, ← mem_reads_sortStage_iff]
  constructor
  · rintro ⟨s, hs, hname⟩
    simp only [clauseStages, List.mem_append] at hs
    rcases hs with (((hunwind | hmatching) | hsort) | hskip) | hlimit
    · cases unwind with
      | false => cases hunwind
      | true =>
        cases List.mem_singleton.mp hunwind
        cases hname
    · exact Or.inl ⟨s, hmatching, hname⟩
    · exact Or.inr ⟨s, hsort, hname⟩
    · exact absurd hname (reads_eq_nil_of_mem_skipStage hskip ▸ List.not_mem_nil)
    · exact absurd hname (reads_eq_nil_of_mem_limitStage hlimit ▸ List.not_mem_nil)
  · rintro (⟨s, hs, hname⟩ | ⟨s, hs, hname⟩)
    · exact ⟨s, by simp [clauseStages, hs], hname⟩
    · exact ⟨s, by simp [clauseStages, hs], hname⟩

/-- So they read nothing that the nested plan has not noted. -/
theorem exists_fieldsRead_of_mem_clauseStages {unwind : Bool} {a : FieldPath} {nested : Plan}
    (hnotes : NotesFilter nested) {s : Stage} (hs : s ∈ clauseStages unwind a nested)
    {name : String} (hname : name ∈ s.reads) : ∃ path ∈ nested.fieldsRead, path.dotted = name := by
  rcases mem_reads_clauseStages_iff.mp ⟨s, hs, hname⟩ with hfilter | ⟨path, hpath, hdotted⟩
  · obtain ⟨path, hpath, hdotted⟩ := (hnotes name).mp hfilter
    exact ⟨path, mem_fieldsRead.mpr (.inr (.inl hpath)), hdotted⟩
  · exact ⟨path, mem_fieldsRead.mpr (.inr (.inr (.inl hpath))), hdotted⟩

theorem ownStages_eq_cons (foreignField : String) (unwind : Bool) (association : FieldPath)
    (nested : Plan) :
    ownStages foreignField unwind association nested =
      .lookup association foreignField (nested.keptBelow association) ::
        clauseStages unwind association nested :=
  rfl

/-- The own stages of an association read the field that its join goes on from, what the filter
reads, and the keys of the order. -/
theorem mem_reads_ownStages_iff {f : String} {unwind : Bool} {a : FieldPath} {nested : Plan}
    {name : String} :
    (∃ s ∈ ownStages f unwind a nested, name ∈ s.reads) ↔
      name = a.dotted ∨ name ∈ Condition.namesRead nested.filter ∨
        ∃ path ∈ nested.sort.map Prod.fst, path.dotted = name := by
  rw [ownStages_eq_cons, List.exists_mem_cons_iff, mem_reads_clauseStages_iff, Stage.reads,
    List.mem_singleton]

/-- The joins of a plan read fields of its associations. -/
def JoinsRead (p : Plan) : Prop :=
  ∀ s ∈ p.joins, ∀ name ∈ s.reads, ∃ t ∈ p.expanded, t.segments <+: pieces name

/-- The stages of an association behind its join. -/
def laterStages (unwind : Bool) (association : FieldPath) (nested : Plan) : List Stage :=
  (if unwind then [.unwind association] else []) ++ nested.matchingStage ++ nested.sortStage ++
    nested.skipStage ++ nested.limitStage ++ nested.joins

theorem joinStages_eq_cons (foreignField : String) (unwind : Bool) (association : FieldPath)
    (nested : Plan) :
    joinStages foreignField unwind association nested =
      .lookup association foreignField (nested.keptBelow association) ::
        laterStages unwind association nested :=
  rfl

theorem laterStages_eq (unwind : Bool) (association : FieldPath) (nested : Plan) :
    laterStages unwind association nested =
      clauseStages unwind association nested ++ nested.joins :=
  rfl

/-- Behind its join an association has its clauses, which read fields that the nested plan has noted,
and the deeper joins. -/
theorem reads_laterStages_or_mem_joins {unwind : Bool} {a : FieldPath} {nested : Plan}
    (hnotes : NotesFilter nested) {s : Stage} (hs : s ∈ laterStages unwind a nested)
    {name : String} (hname : name ∈ s.reads) :
    (∃ path ∈ nested.fieldsRead, path.dotted = name) ∨ s ∈ nested.joins := by
  rw [laterStages_eq] at hs
  rcases List.mem_append.mp hs with hclause | hjoin
  · exact Or.inl (exists_fieldsRead_of_mem_clauseStages hnotes hclause hname)
  · exact Or.inr hjoin

/-- So what it reads there are fields that the nested plan has noted, or fields below these. -/
theorem reads_laterStages {unwind : Bool} {a : FieldPath} {nested : Plan}
    (hnotes : NotesFilter nested) (hjoins : JoinsRead nested) {s : Stage}
    (hs : s ∈ laterStages unwind a nested) {name : String} (hname : name ∈ s.reads) :
    ∃ path ∈ nested.fieldsRead, path.segments <+: pieces name := by
  rcases reads_laterStages_or_mem_joins hnotes hs hname with ⟨path, hpath, rfl⟩ | hjoin
  · exact ⟨path, hpath, path.segments_prefix_pieces_dotted⟩
  · obtain ⟨t, ht, htname⟩ := hjoins s hjoin name hname
    exact ⟨t, mem_fieldsRead.mpr (.inr (.inr (.inr ht))), htname⟩

/-- The stages of an association read the association itself and what is read behind its join. -/
theorem reads_joinStages {f : String} {unwind : Bool} {a : FieldPath} {nested : Plan}
    (hnotes : NotesFilter nested) (hjoins : JoinsRead nested) {s : Stage}
    (hs : s ∈ joinStages f unwind a nested) {name : String} (hname : name ∈ s.reads) :
    name = a.dotted ∨ ∃ path ∈ nested.fieldsRead, path.segments <+: pieces name := by
  rw [joinStages_eq_cons] at hs
  rcases List.mem_cons.mp hs with rfl | hs
  · exact Or.inl (List.mem_singleton.mp hname)
  · exact Or.inr (reads_laterStages hnotes hjoins hs hname)

theorem joinsRead_start (base? : Option FieldPath) : JoinsRead (.start base?) := by
  intro s hs
  cases hs

theorem Grows.joinsRead (h : Grows o p q) (hp : JoinsRead p) : JoinsRead q := by
  induction h with
  | refl => exact hp
  | @join _ q nested _ a _ _ hnested ih ihnested =>
    have ha : a ∈ q.expanded ++ [a] := List.mem_append_right _ (List.mem_singleton.mpr rfl)
    intro s hs name hname
    rcases List.mem_append.mp hs with hs | hs
    · obtain ⟨t, ht, htname⟩ := ih hp s hs name hname
      exact ⟨t, List.mem_append_left _ ht, htname⟩
    · rcases reads_joinStages (hnested.notesFilter (notesFilter_start _))
        (ihnested (joinsRead_start _)) hs hname with rfl | ⟨path, hpath, hname⟩
      · exact ⟨a, ha, a.segments_prefix_pieces_dotted⟩
      · -- What the nested plan reads lies below the association.
        obtain ⟨r, rfl⟩ := hnested.exists_eq_append hpath
        exact ⟨a, ha, (List.prefix_append _ _).trans hname⟩
  | _ => rename_i ih; exact ih hp

/-! ## The stages of one association -/

variable {a : FieldPath} {nested : Plan}

/-- **The join of an association keeps what its own stages and the joins below it read.** -/
theorem keepsFor_of_mem_joinStages (hnested : Grows o (.start (some a)) nested) {f : String}
    {unwind : Bool} {s t : Stage} (hs : s ∈ ownStages f unwind a nested)
    (ht : t ∈ joinStages f unwind a nested) : s.KeepsFor t := by
  rcases mem_ownStages hs with rfl | hplain
  · -- What is read later is the association itself or belongs to what the nested plan has noted.
    apply Stage.keepsFor_of_covers
    intro hkept name hname
    rcases reads_joinStages (hnested.notesFilter (notesFilter_start _))
      (hnested.joinsRead (joinsRead_start _)) ht hname with rfl | ⟨path, hpath, hbelow⟩
    · exact Or.inl rfl
    · obtain ⟨r, rfl⟩ := hnested.exists_eq_append hpath
      exact Or.inr ⟨r, covers_keptBelow hkept hpath, hbelow⟩
  · exact Stage.keepsFor_of_isPlain hplain t

/-- So it depends on the deeper joins alone whether the stages of an association take away what
others among them read. -/
theorem pairwise_joinStages (hnested : Grows o (.start (some a)) nested) (f : String)
    (unwind : Bool) :
    (joinStages f unwind a nested).Pairwise Stage.KeepsFor ↔
      nested.joins.Pairwise Stage.KeepsFor := by
  have hown {s t : Stage} (hs : s ∈ ownStages f unwind a nested)
      (ht : t ∈ ownStages f unwind a nested ++ nested.joins) : s.KeepsFor t :=
    keepsFor_of_mem_joinStages hnested hs ht
  rw [joinStages_eq, List.pairwise_append]
  constructor
  · exact fun h => h.2.1
  · intro hjoins
    refine ⟨?_, hjoins, fun s hs t ht => hown hs (List.mem_append_right _ ht)⟩
    exact List.pairwise_of_forall_mem_list fun s hs t ht => hown hs (List.mem_append_left _ ht)

/-! ## The stages of a pipeline -/

/-- The stages behind the joins of a pipeline. -/
def lastStages (p : Plan) : List Stage :=
  p.projectStage ++ p.sortStage ++ p.skipStage ++ p.limitStage

theorem pipeline_eq (p : Plan) : p.pipeline = p.matchingStage ++ (p.joins ++ p.lastStages) := by
  simp [pipeline, lastStages]

/-- None of them joins, and of them only the order reads anything. -/
theorem mem_lastStages {t : Stage} (h : t ∈ p.lastStages) :
    (∀ u : Stage, t.KeepsFor u) ∧ (t = .sort p.sort ∨ t.reads = []) := by
  simp only [lastStages, List.mem_append] at h
  rcases h with ((h | h) | h) | h
  · unfold projectStage at h
    split at h
    · cases h
    · cases List.mem_singleton.mp h
      exact ⟨fun _ => trivial, .inr rfl⟩
  · refine ⟨Stage.keepsFor_of_isPlain (isPlain_of_mem_sortStage h), .inl ?_⟩
    unfold sortStage at h
    split at h
    · cases h
    · exact List.mem_singleton.mp h
  · exact ⟨Stage.keepsFor_of_isPlain (isPlain_of_mem_skipStage h),
      .inr (reads_eq_nil_of_mem_skipStage h)⟩
  · exact ⟨Stage.keepsFor_of_isPlain (isPlain_of_mem_limitStage h),
      .inr (reads_eq_nil_of_mem_limitStage h)⟩

/-- So it depends on the joins alone what a pipeline takes away. -/
theorem forall_keepsFor_pipeline_iff {t : Stage} :
    (∀ s ∈ p.pipeline, s.KeepsFor t) ↔ ∀ s ∈ p.joins, s.KeepsFor t := by
  rw [pipeline_eq, List.forall_mem_append, List.forall_mem_append]
  constructor
  · exact fun h => h.2.1
  · intro h
    exact ⟨fun s hs => Stage.keepsFor_of_isPlain (isPlain_of_mem_matchingStage hs) t, h,
      fun s hs => (mem_lastStages hs).1 t⟩

/-- So the joins of a pipeline have to keep what deeper ones read, and the keys of the order. -/
theorem pairwise_pipeline :
    p.pipeline.Pairwise Stage.KeepsFor ↔
      p.joins.Pairwise Stage.KeepsFor ∧ ∀ s ∈ p.pipeline, s.KeepsFor (.sort p.sort) := by
  have hmatching (s : Stage) (hs : s ∈ p.matchingStage) (t : Stage) : s.KeepsFor t :=
    Stage.keepsFor_of_isPlain (isPlain_of_mem_matchingStage hs) t
  rw [forall_keepsFor_pipeline_iff, pipeline_eq, List.pairwise_append, List.pairwise_append]
  constructor
  · rintro ⟨-, ⟨hjoins, -, hlast⟩, -⟩
    refine ⟨hjoins, fun s hs => ?_⟩
    -- Without a key the order reads nothing, and there is no such stage.
    by_cases hsort : p.sort = []
    · rw [hsort]
      exact Stage.keepsFor_of_reads_eq_nil s rfl
    · apply hlast s hs
      simp [lastStages, sortStage, hsort]
  · rintro ⟨hjoins, hsort⟩
    refine ⟨?_, ⟨hjoins, ?_, fun s hs t ht => ?_⟩, fun s hs t _ => hmatching s hs t⟩
    · exact List.pairwise_of_forall_mem_list fun s hs t _ => hmatching s hs t
    · exact List.pairwise_of_forall_mem_list fun s hs t _ => (mem_lastStages hs).1 t
    · rcases (mem_lastStages ht).2 with rfl | hreads
      · exact hsort s hs
      · exact Stage.keepsFor_of_reads_eq_nil s hreads

end Plan

end EntityQuery
