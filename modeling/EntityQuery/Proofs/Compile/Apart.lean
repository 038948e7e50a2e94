import EntityQuery.Proofs.Compile.Kept
import EntityQuery.Proofs.Compile.Preorder
import EntityQuery.Proofs.Condition.Identifiers

/-!
# When items keep apart

Whether the stages of an item take away what those of a later one read is settled by the query. An
item with a selection takes away what none of its clauses asks for. What an item reads is the field
that it goes on from and what its filter and its order name, and the same of the items below it.
Main statement: items keep apart if and only if every field that a later one reads below an
association with a selection is at or below a field that is asked for there.
-/

namespace EntityQuery

open FieldPath (pieces)

namespace ExpandItem

/-! ## What the clauses of an item name -/

/-- A clause in the options of the item, which joins the association at `a`, reads the field: the
filter names it, or the order goes by it. -/
inductive Reads (item : ExpandItem) (a path : FieldPath) : Prop
  | filter {e : Node} {name : String} (he : e ∈ item.sequences.expressions)
      (hname : name ∈ e.identifiers) (hpath : (Node.identifier name).fieldPath (some a) = .ok path)
  | order {key : Node} {d : Direction} (hkey : key ∈ item.sequences.keys)
      (hpath : Plan.sortKey (some a) key = .ok (path, d))

/-- A clause in the options of the item asks for the field: it selects it, reads it, or joins an
association from it. -/
inductive AsksFor (item : ExpandItem) (a path : FieldPath) : Prop
  | selection {n : Node} (hn : n ∈ item.sequences.selected)
      (hpath : Plan.selectedPath (some a) n = .ok path)
  | clause (h : item.Reads a path)
  | association {next : ExpandItem} (hnext : next ∈ Plan.nestedItems item)
      (hpath : next.path.fieldPath (some a) = .ok path)

end ExpandItem

namespace Plan

variable {o : Options} {base? : Option FieldPath} {item : ExpandItem} {a : FieldPath}
  {nested : Plan}

/-! ## The plan of an item told by its clauses -/

/-- Each expression of a conjunction has a condition of its own. -/
theorem exists_ofNode_of_foldl {first : Node} {es : List Node} {d : Document}
    (h : (Condition.ofNode o base? (es.foldl (Node.binary .and) first)).result = .ok d) :
    ∀ e ∈ first :: es, ∃ d, (Condition.ofNode o base? e).result = .ok d := by
  induction es generalizing first with
  | nil => exact List.forall_mem_singleton.mpr ⟨d, h⟩
  | cons e es ih =>
    obtain ⟨⟨both, hboth⟩, hes⟩ := List.forall_mem_cons.mp (ih h)
    rw [Condition.ofNode, Traced.result_andThen_eq_ok] at hboth
    obtain ⟨left, hfirst, hmap⟩ := hboth
    obtain ⟨right, he, -⟩ := Traced.result_map_eq_ok.mp hmap
    exact List.forall_mem_cons.mpr ⟨⟨left, hfirst⟩, List.forall_mem_cons.mpr ⟨⟨right, he⟩, hes⟩⟩

theorem exists_ofNode_of_conjunction {es : List Node} {d : Document}
    (h : conjunction o base? es = .ok d) {e : Node} (he : e ∈ es) :
    ∃ d, (Condition.ofNode o base? e).result = .ok d := by
  cases es with
  | nil => cases he
  | cons first es => exact exists_ofNode_of_foldl h e he

section

variable (h : (readOptions o item.options (.start (some a))).result = .ok nested)

include h

theorem mem_filterPaths_iff {path : FieldPath} :
    path ∈ nested.filterPaths ↔ ∃ e ∈ item.sequences.expressions, ∃ name ∈ e.identifiers,
      (Node.identifier name).fieldPath (some a) = .ok path := by
  have hgathers := gathers_readOptions h
  rw [hgathers.filterPaths, List.mem_eraseDups, List.mem_flatMap]
  refine exists_congr fun e => and_congr_right fun he => ?_
  obtain ⟨d, hd⟩ := exists_ofNode_of_conjunction hgathers.filter he
  exact mem_iff_of_map_eq_ok (Condition.resolve_ofNode e hd)

theorem mem_map_fst_sort_iff {path : FieldPath} :
    path ∈ nested.sort.map Prod.fst ↔
      ∃ key ∈ item.sequences.keys, ∃ d, sortKey (some a) key = .ok (path, d) := by
  obtain ⟨keys, hkeys, hsort⟩ := (gathers_readOptions h).sort
  rw [hsort.paths, List.mem_eraseDups, List.mem_map]
  constructor
  · rintro ⟨⟨path, d⟩, hkey, rfl⟩
    obtain ⟨key, hmem, hd⟩ := (mem_iff_of_map_eq_ok hkeys).mp hkey
    exact ⟨key, hmem, d, hd⟩
  · rintro ⟨key, hmem, d, hd⟩
    exact ⟨_, (mem_iff_of_map_eq_ok hkeys).mpr ⟨key, hmem, hd⟩, rfl⟩

theorem mem_expanded_iff {path : FieldPath} :
    path ∈ nested.expanded ↔
      ∃ next ∈ nestedItems item, next.path.fieldPath (some a) = .ok path := by
  obtain ⟨r, hbase, hexpanded, -, hitems⟩ := exists_readItems_of_readOptions h
  rw [(readItems_eq_ok hitems).1, hexpanded, hbase, List.nil_append, associations,
    List.mem_filterMap]
  refine exists_congr fun next => and_congr_right fun _ => ?_
  cases next.path.fieldPath (some a) <;> simp [Except.toOption]

theorem covers_selection_iff {path : FieldPath} :
    nested.selection.covers path = true ↔ ∃ n ∈ item.sequences.selected, ∃ asked,
      selectedPath (some a) n = .ok asked ∧ asked.covers path = true := by
  obtain ⟨paths, hpaths, hselection⟩ := (gathers_readOptions h).selection
  rw [hselection, Selection.covers_foldl_add]
  constructor
  · rintro (hnone | ⟨asked, hasked, hcovers⟩)
    · cases hnone
    · obtain ⟨n, hn, hok⟩ := (mem_iff_of_map_eq_ok hpaths).mp hasked
      exact ⟨n, hn, asked, hok, hcovers⟩
  · rintro ⟨n, hn, asked, hok, hcovers⟩
    exact Or.inr ⟨asked, (mem_iff_of_map_eq_ok hpaths).mpr ⟨n, hn, hok⟩, hcovers⟩

theorem selection_eq_nil_iff : nested.selection = [] ↔ item.sequences.selected = [] := by
  obtain ⟨paths, hpaths, hselection⟩ := (gathers_readOptions h).selection
  constructor
  · intro hnil
    by_contra hselected
    obtain ⟨n, hn⟩ := List.exists_mem_of_ne_nil _ hselected
    -- What an item names is covered by the selection.
    have hok : selectedPath (some a) n ∈ paths.map Except.ok := hpaths ▸ List.mem_map_of_mem hn
    obtain ⟨path, -, hpath⟩ := List.mem_map.mp hok
    have hcovers := (covers_selection_iff h).mpr ⟨n, hn, path, hpath.symm, path.covers_refl⟩
    rw [hnil] at hcovers
    cases hcovers
  · intro hselected
    rw [hselected] at hpaths
    rw [hselection, List.map_eq_nil_iff.mp hpaths.symm]
    rfl

/-- What covers a field among those that the plan notes covers it among those that are asked for. A
selected field that was left out for one above it makes no difference. -/
theorem exists_asksFor_iff {path : FieldPath} :
    (∃ asked ∈ nested.fieldsRead, asked.covers path = true) ↔
      ∃ asked, item.AsksFor a asked ∧ asked.covers path = true := by
  constructor
  · rintro ⟨asked, hasked, hcovers⟩
    rcases mem_fieldsRead.mp hasked with hselected | hfilter | hsort | hexpanded
    · obtain ⟨n, hn, above, habove, hcovers⟩ :=
        (covers_selection_iff h).mp (Selection.covers_iff.mpr ⟨asked, hselected, hcovers⟩)
      exact ⟨above, .selection hn habove, hcovers⟩
    · obtain ⟨e, he, name, hname, hpath⟩ := (mem_filterPaths_iff h).mp hfilter
      exact ⟨asked, .clause (.filter he hname hpath), hcovers⟩
    · obtain ⟨key, hkey, d, hpath⟩ := (mem_map_fst_sort_iff h).mp hsort
      exact ⟨asked, .clause (.order hkey hpath), hcovers⟩
    · obtain ⟨next, hnext, hpath⟩ := (mem_expanded_iff h).mp hexpanded
      exact ⟨asked, .association hnext hpath, hcovers⟩
  · rintro ⟨asked, hasks, hcovers⟩
    cases hasks with
    | selection hn hpath =>
      obtain ⟨above, habove, hcovers⟩ :=
        Selection.covers_iff.mp ((covers_selection_iff h).mpr ⟨_, hn, asked, hpath, hcovers⟩)
      exact ⟨above, mem_fieldsRead.mpr (.inl habove), hcovers⟩
    | clause hreads =>
      refine ⟨asked, mem_fieldsRead.mpr ?_, hcovers⟩
      cases hreads with
      | filter he hname hpath =>
        exact .inr (.inl ((mem_filterPaths_iff h).mpr ⟨_, he, _, hname, hpath⟩))
      | order hkey hpath =>
        exact .inr (.inr (.inl ((mem_map_fst_sort_iff h).mpr ⟨_, hkey, _, hpath⟩)))
    | association hnext hpath =>
      have hexpanded := (mem_expanded_iff h).mpr ⟨_, hnext, hpath⟩
      exact ⟨asked, mem_fieldsRead.mpr (.inr (.inr (.inr hexpanded))), hcovers⟩

/-! ## The stages of one item -/

/-- The own stages of an item read the field that it goes on from, and what its clauses read. -/
theorem exists_reads_ownStages_iff {f : String} {unwind : Bool} {name : String} :
    (∃ s ∈ ownStages f unwind a nested, name ∈ s.reads) ↔
      ∃ path : FieldPath, path.dotted = name ∧ (path = a ∨ item.Reads a path) := by
  have hnotes : NotesFilter nested := (grows_of_readOptions h).notesFilter (notesFilter_start _)
  rw [mem_reads_ownStages_iff, hnotes name]
  constructor
  · rintro (rfl | ⟨path, hpath, hdotted⟩ | ⟨path, hpath, hdotted⟩)
    · exact ⟨a, rfl, .inl rfl⟩
    · obtain ⟨e, he, text, htext, hfield⟩ := (mem_filterPaths_iff h).mp hpath
      exact ⟨path, hdotted, .inr (.filter he htext hfield)⟩
    · obtain ⟨key, hkey, d, hfield⟩ := (mem_map_fst_sort_iff h).mp hpath
      exact ⟨path, hdotted, .inr (.order hkey hfield)⟩
  · rintro ⟨path, hdotted, rfl | hreads⟩
    · exact Or.inl hdotted.symm
    · cases hreads with
      | filter he hname hpath =>
        have hnoted := (mem_filterPaths_iff h).mpr ⟨_, he, _, hname, hpath⟩
        exact Or.inr (Or.inl ⟨path, hnoted, hdotted⟩)
      | order hkey hpath =>
        have hsorted := (mem_map_fst_sort_iff h).mpr ⟨_, hkey, _, hpath⟩
        exact Or.inr (Or.inr ⟨path, hsorted, hdotted⟩)

/-- What a join keeps covers a field exactly if something that is asked for does. -/
theorem covers_keptBelow_iff_asksFor (hselected : item.sequences.selected ≠ []) {r : FieldPath} :
    Selection.covers (nested.keptBelow a) r = true ↔
      ∃ asked, item.AsksFor a asked ∧ asked.covers (a ++ r) = true := by
  rw [covers_keptBelow_iff (mt (selection_eq_nil_iff h).mp hselected), ← exists_asksFor_iff h]
  constructor
  · rintro ⟨q, hq, hcovers⟩
    exact ⟨a ++ q, hq, by rwa [FieldPath.covers_append_append]⟩
  · rintro ⟨path, hpath, hcovers⟩
    obtain ⟨q, rfl⟩ := (grows_of_readOptions h).exists_eq_append hpath
    exact ⟨q, hpath, by rwa [FieldPath.covers_append_append] at hcovers⟩

/-- The join of an item keeps what a stage reads exactly if all of it below the association is asked
for. Without a selection it keeps everything. -/
theorem keepsFor_lookup_iff {f : String} {t : Stage}
    (hnames : ∀ name ∈ t.reads, ∃ path : FieldPath, path.dotted = name) :
    (Stage.lookup a f (nested.keptBelow a)).KeepsFor t ↔
      (item.sequences.selected ≠ [] → ∀ r, (a ++ r).dotted ∈ t.reads →
        ∃ asked, item.AsksFor a asked ∧ asked.covers (a ++ r) = true) := by
  have hnil : nested.keptBelow a = [] ↔ item.sequences.selected = [] := by
    rw [← selection_eq_nil_iff h]
    exact keptBelow_eq_nil_iff fun path hpath =>
      (grows_of_readOptions h).exists_eq_append (mem_fieldsRead.mpr (.inl hpath))
  constructor
  · intro hkeeps hselected r hr
    have hprefix : a.segments <+: pieces (a ++ r).dotted :=
      FieldPath.pieces_dotted (a ++ r) ▸ List.prefix_append _ _
    have hne : a.segments ≠ pieces (a ++ r).dotted :=
      FieldPath.pieces_dotted (a ++ r) ▸ a.segments_ne_append r
    obtain ⟨k, hk, hkr⟩ := hkeeps (mt hnil.mp hselected) _ hr hprefix hne
    rw [FieldPath.pieces_dotted, ← FieldPath.covers_iff, FieldPath.covers_append_append] at hkr
    exact (covers_keptBelow_iff_asksFor h hselected).mp (Selection.covers_iff.mpr ⟨k, hk, hkr⟩)
  · intro hasked hkept name hname hprefix hne
    obtain ⟨path, rfl⟩ := hnames name hname
    rw [FieldPath.pieces_dotted] at hprefix hne
    obtain ⟨r, rfl⟩ := FieldPath.exists_eq_append_of_prefix_of_ne hprefix hne
    have hselected := mt hnil.mpr hkept
    have hcovers := (covers_keptBelow_iff_asksFor h hselected).mpr (hasked hselected r hname)
    obtain ⟨k, hk, hkr⟩ := Selection.covers_iff.mp hcovers
    refine ⟨k, hk, ?_⟩
    rwa [FieldPath.pieces_dotted, ← FieldPath.covers_iff, FieldPath.covers_append_append]

end

/-! ## The items within an item -/

/-- The item `inner` is `outer` or stands below it, at any depth, and joins the association at this
path. -/
inductive JoinsWithin : Option FieldPath → ExpandItem → ExpandItem → FieldPath → Prop
  | here {base? : Option FieldPath} {item : ExpandItem} {a : FieldPath}
      (ha : item.path.fieldPath base? = .ok a) : JoinsWithin base? item item a
  | within {base? : Option FieldPath} {outer next inner : ExpandItem} {a b : FieldPath}
      (ha : outer.path.fieldPath base? = .ok a) (hnext : next ∈ nestedItems outer)
      (h : JoinsWithin (some a) next inner b) : JoinsWithin base? outer inner b

/-- The item or one below it reads the field, for its clauses or as the field that its association
goes on from. -/
def ReadsWithin (base? : Option FieldPath) (outer : ExpandItem) (path : FieldPath) : Prop :=
  ∃ inner a, JoinsWithin base? outer inner a ∧ (path = a ∨ inner.Reads a path)

/-- Neither the selection of the item nor that of one below it takes away any of the fields: what
lies below an association with a selection is at or below something that is asked for there. -/
def Spares (base? : Option FieldPath) (outer : ExpandItem) (fields : FieldPath → Prop) : Prop :=
  ∀ inner a, JoinsWithin base? outer inner a → inner.sequences.selected ≠ [] →
    ∀ r, fields (a ++ r) → ∃ asked, inner.AsksFor a asked ∧ asked.covers (a ++ r) = true

variable {outer inner : ExpandItem} {items : List ExpandItem}

theorem JoinsWithin.exists_readOptions (hwithin : JoinsWithin base? outer inner a)
    (h : outer.IsRead o base?) :
    ∃ nested, (readOptions o inner.options (.start (some a))).result = .ok nested := by
  obtain ⟨b, nested, hb, hnested⟩ := h
  induction hwithin generalizing b nested with
  | here ha =>
    cases hb.symm.trans ha
    exact ⟨nested, hnested⟩
  | within ha hnext _ ih =>
    cases hb.symm.trans ha
    obtain ⟨c, deeper, hc, hdeeper⟩ := (joins_of_readOptions hnested).2 _ hnext
    exact ih c deeper hc hdeeper

/-- The stages of an item are the own ones of all items within it. -/
theorem mem_itemStages_iff {base? : Option FieldPath} {outer : ExpandItem}
    (h : outer.IsRead o base?) {s : Stage} :
    s ∈ itemStages o base? outer ↔ ∃ inner a nested, JoinsWithin base? outer inner a ∧
      (readOptions o inner.options (.start (some a))).result = .ok nested ∧
      s ∈ ownStages o.foreignField o.unwind a nested := by
  obtain ⟨a, nested, ha, hnested⟩ := h
  obtain ⟨hjoins, hread⟩ := joins_of_readOptions hnested
  rw [itemStages_eq ha hnested, joinStages_eq, hjoins, List.mem_append, List.mem_flatMap]
  constructor
  · rintro (hown | ⟨next, hnext, hs⟩)
    · exact ⟨outer, a, nested, .here ha, hnested, hown⟩
    · have hsmaller := List.sizeOf_lt_of_mem hnext
      have hnested := sizeOf_nestedItems_lt_item outer
      obtain ⟨inner, b, deeper, hwithin, hdeeper, hown⟩ :=
        (mem_itemStages_iff (hread next hnext)).mp hs
      exact ⟨inner, b, deeper, .within ha hnext hwithin, hdeeper, hown⟩
  · rintro ⟨inner, b, deeper, hwithin, hdeeper, hown⟩
    cases hwithin with
    | here hb =>
      cases ha.symm.trans hb
      cases hnested.symm.trans hdeeper
      exact Or.inl hown
    | @within _ _ next _ _ _ hb hnext hwithin =>
      cases ha.symm.trans hb
      have hsmaller := List.sizeOf_lt_of_mem hnext
      have hnested := sizeOf_nestedItems_lt_item outer
      exact Or.inr ⟨next, hnext, (mem_itemStages_iff (hread next hnext)).mpr
        ⟨inner, b, deeper, hwithin, hdeeper, hown⟩⟩
termination_by sizeOf outer

theorem mem_reads_itemStages_iff (h : outer.IsRead o base?) {name : String} :
    (∃ s ∈ itemStages o base? outer, name ∈ s.reads) ↔
      ∃ path : FieldPath, path.dotted = name ∧ ReadsWithin base? outer path := by
  constructor
  · rintro ⟨s, hs, hname⟩
    obtain ⟨inner, a, nested, hwithin, hnested, hs⟩ := (mem_itemStages_iff h).mp hs
    obtain ⟨path, hdotted, hreads⟩ := (exists_reads_ownStages_iff hnested).mp ⟨s, hs, hname⟩
    exact ⟨path, hdotted, inner, a, hwithin, hreads⟩
  · rintro ⟨path, hdotted, inner, a, hwithin, hreads⟩
    obtain ⟨nested, hnested⟩ := hwithin.exists_readOptions h
    obtain ⟨s, hs, hname⟩ := (exists_reads_ownStages_iff hnested).mpr ⟨path, hdotted, hreads⟩
    exact ⟨s, (mem_itemStages_iff h).mpr ⟨inner, a, nested, hwithin, hnested, hs⟩, hname⟩

theorem keepsFor_itemStages_iff (h : outer.IsRead o base?) {t : Stage}
    (hnames : ∀ name ∈ t.reads, ∃ path : FieldPath, path.dotted = name) :
    (∀ s ∈ itemStages o base? outer, s.KeepsFor t) ↔
      Spares base? outer fun path => path.dotted ∈ t.reads := by
  constructor
  · intro hkeeps inner a hwithin
    obtain ⟨nested, hnested⟩ := hwithin.exists_readOptions h
    have hjoin : Stage.lookup a o.foreignField (nested.keptBelow a) ∈ itemStages o base? outer :=
      (mem_itemStages_iff h).mpr ⟨inner, a, nested, hwithin, hnested, List.mem_cons_self⟩
    exact (keepsFor_lookup_iff hnested hnames).mp (hkeeps _ hjoin)
  · intro hspares s hs
    obtain ⟨inner, a, nested, hwithin, hnested, hs⟩ := (mem_itemStages_iff h).mp hs
    rcases mem_ownStages hs with rfl | hplain
    · exact (keepsFor_lookup_iff hnested hnames).mpr (hspares inner a hwithin)
    · exact Stage.keepsFor_of_isPlain hplain t

/-- **Items keep apart exactly if the selections of each spare what the later ones read.** -/
theorem keepApart_iff (h : ∀ item ∈ items, item.IsRead o base?) :
    KeepApart o base? items ↔
      items.Pairwise fun i j => Spares base? i (ReadsWithin base? j) := by
  refine List.Pairwise.iff_of_mem fun {i j} hi hj => ?_
  have hnames (t : Stage) (ht : t ∈ itemStages o base? j) (name : String) (hname : name ∈ t.reads) :
      ∃ path : FieldPath, path.dotted = name := by
    obtain ⟨path, hdotted, -⟩ := (mem_reads_itemStages_iff (h j hj)).mp ⟨t, ht, hname⟩
    exact ⟨path, hdotted⟩
  constructor
  · intro hkeeps inner a hwithin hselected r hreads
    obtain ⟨t, ht, hname⟩ := (mem_reads_itemStages_iff (h j hj)).mpr ⟨a ++ r, rfl, hreads⟩
    have hspares := (keepsFor_itemStages_iff (h i hi) (hnames t ht)).mp fun s hs => hkeeps s hs t ht
    exact hspares inner a hwithin hselected r hname
  · intro hspares s hs t ht
    refine (keepsFor_itemStages_iff (h i hi) (hnames t ht)).mpr ?_ s hs
    intro inner a hwithin hselected r hname
    obtain ⟨path, hdotted, hreads⟩ := (mem_reads_itemStages_iff (h j hj)).mp ⟨t, ht, hname⟩
    exact hspares inner a hwithin hselected r (FieldPath.dotted_injective hdotted ▸ hreads)

/-! ## Associations that lie apart -/

theorem JoinsWithin.exists_covers (h : JoinsWithin base? outer inner a) :
    ∃ b, outer.path.fieldPath base? = .ok b ∧ b.covers a = true := by
  induction h with
  | here ha => exact ⟨_, ha, FieldPath.covers_refl _⟩
  | within ha _ _ ih =>
    obtain ⟨b, hb, hcovers⟩ := ih
    exact ⟨_, ha, FieldPath.covers_trans (Node.base_covers_of_fieldPath hb) hcovers⟩

theorem covers_of_sortKey {key : Node} {path : FieldPath} {d : Direction}
    (h : sortKey (some a) key = .ok (path, d)) : a.covers path = true := by
  cases key with
  | orderKey | identifier =>
    obtain ⟨path, hpath, heq⟩ := exists_of_map_eq_ok h
    cases heq
    exact Node.base_covers_of_fieldPath hpath
  | _ => cases h

/-- Whatever an item reads lies at or below its own association. -/
theorem ReadsWithin.exists_covers {path : FieldPath} (h : ReadsWithin base? outer path) :
    ∃ b, outer.path.fieldPath base? = .ok b ∧ b.covers path = true := by
  obtain ⟨inner, a, hwithin, hpath⟩ := h
  obtain ⟨b, hb, hba⟩ := hwithin.exists_covers
  refine ⟨b, hb, ?_⟩
  rcases hpath with rfl | hreads
  · exact hba
  · cases hreads with
    | filter _ _ hpath => exact FieldPath.covers_trans hba (Node.base_covers_of_fieldPath hpath)
    | order _ hpath => exact FieldPath.covers_trans hba (covers_of_sortKey hpath)

/-- Items keep apart, whatever their options say, if no association of one is at or below that of
another. -/
theorem keepApart_of_meets (h : ∀ item ∈ items, item.IsRead o base?)
    (hmeets : (associations base? items).Pairwise fun a b => a.meets b = false) :
    KeepApart o base? items := by
  rw [associations, List.pairwise_filterMap] at hmeets
  refine (keepApart_iff h).mpr (hmeets.imp fun {i j} hij inner a hwithin _ r hreads => ?_)
  obtain ⟨b, hb, hba⟩ := hwithin.exists_covers
  obtain ⟨c, hc, hcr⟩ := hreads.exists_covers
  have hbr : b.covers (a ++ r) = true := FieldPath.covers_trans hba (a.covers_append r)
  obtain ⟨hbc, hcb⟩ := FieldPath.meets_eq_false_iff.mp (hij b (by rw [hb]; rfl) c (by rw [hc]; rfl))
  -- Two paths above one field are on one line.
  rcases List.prefix_or_prefix_of_prefix (FieldPath.covers_iff.mp hbr) (FieldPath.covers_iff.mp hcr)
    with hprefix | hprefix
  · exact absurd hprefix hbc
  · exact absurd hprefix hcb

end Plan

/-! ## Whole pipelines -/

namespace Compile

open Plan (ExpandsWithin KeepApart ReadsWithin Spares expandItems)

variable {o : Options} {root? : Option Node} {q : FindQuery} {stages : List Stage}

/-- The joins of a pipeline keep the keys of its order exactly if the selections of all items spare
them. -/
theorem keepsFor_sort_iff (hq : find o root? = .ok q) (hs : pipeline o root? = .ok stages) :
    (∀ s ∈ stages, s.KeepsFor (.sort q.sort)) ↔
      ∀ item ∈ expandItems (expandClause? root?), Spares none item (· ∈ q.sort.map Prod.fst) := by
  obtain ⟨p, hp, rfl, rfl⟩ := exists_plan hq hs
  obtain ⟨hjoins, hread⟩ := joins_and_isRead_of_plan hp
  have hnames : ∀ name ∈ (Stage.sort p.sort).reads, ∃ path : FieldPath, path.dotted = name := by
    intro name hname
    obtain ⟨key, -, hdotted⟩ := List.mem_map.mp hname
    exact ⟨key.1, hdotted⟩
  have hreads (path : FieldPath) :
      path.dotted ∈ (Stage.sort p.sort).reads ↔ path ∈ p.sort.map Prod.fst := by
    rw [Stage.reads, List.mem_map, List.mem_map]
    exact exists_congr fun key => and_congr_right fun _ =>
      ⟨FieldPath.dotted_injective, congrArg FieldPath.dotted⟩
  have hsort : (FindQuery.ofPlan p).sort = p.sort := rfl
  rw [hsort, Plan.forall_keepsFor_pipeline_iff, hjoins, List.forall_mem_flatMap]
  refine forall₂_congr fun item hitem => ?_
  rw [Plan.keepsFor_itemStages_iff (hread item hitem) hnames]
  simp only [hreads]

/-- **Whether joins take away what is read later can be told from the query.** The items of each
expand clause keep apart and the keys of the order are kept, exactly if in each clause the
selections of an item and of those below it spare what the later items read, and the selections of
all items spare the keys. -/
theorem keepApart_and_keepsFor_sort_iff (hq : find o root? = .ok q)
    (hs : pipeline o root? = .ok stages) :
    ((∀ base? items, ExpandsWithin none (expandItems (expandClause? root?)) base? items →
        KeepApart o base? items) ∧ ∀ s ∈ stages, s.KeepsFor (.sort q.sort)) ↔
      (∀ base? items, ExpandsWithin none (expandItems (expandClause? root?)) base? items →
        items.Pairwise fun i j => Spares base? i (ReadsWithin base? j)) ∧
      ∀ item ∈ expandItems (expandClause? root?), Spares none item (· ∈ q.sort.map Prod.fst) := by
  obtain ⟨p, hp, -, -⟩ := exists_plan hq hs
  refine and_congr ?_ (keepsFor_sort_iff hq hs)
  refine forall_congr' fun base? => forall_congr' fun items => imp_congr_right fun hwithin => ?_
  exact Plan.keepApart_iff (hwithin.isRead (joins_and_isRead_of_plan hp).2)

end Compile

end EntityQuery
