import EntityQuery.Proofs.Compile.Root
import EntityQuery.Proofs.Store.Marks

/-!
# Finds and pipelines

A pipeline narrows the records before it sorts them, a find does so at the end. Without joins the
two have the same result on every store and every collection, exactly if the sort keys are all kept
by the selection. A key that is not kept can be made to decide the order in a find, while the
pipeline no longer sees it.
-/

namespace EntityQuery

namespace Store

variable {p : Plan}

/-! ## Where nothing is lost -/

theorem skipUpTo_narrow (count? : Option UInt64) (selection : Selection)
    (records : List Document) :
    skipUpTo count? (narrow selection records) = narrow selection (skipUpTo count? records) := by
  unfold narrow
  split
  · rfl
  · cases count? with
    | none => rfl
    | some count => exact List.map_drop.symm

theorem limitTo_narrow (count? : Option UInt64) (selection : Selection)
    (records : List Document) :
    limitTo count? (narrow selection records) = narrow selection (limitTo count? records) := by
  unfold narrow
  split
  · rfl
  · cases count? with
    | none => rfl
    | some count =>
      by_cases hcount : count = 0
      · simp only [limitTo, hcount, ↓reduceIte]
      · simp only [limitTo, hcount, ↓reduceIte]
        exact List.map_take.symm

theorem run_pipeline_eq_find (hjoins : p.joins = []) (hexpanded : p.expanded = [])
    (hlimit : p.limit? ≠ some 0)
    (hkeys : p.selection = [] ∨ ∀ key ∈ p.sort, p.selection.covers key.1 = true) (S : Store)
    (records : List Document) : S.run p.pipeline records = S.find (.ofPlan p) records := by
  rw [S.run_pipeline hjoins hexpanded hlimit, S.sort_narrow hkeys, skipUpTo_narrow,
    limitTo_narrow]
  rfl

/-! ## Where a key is lost -/

/-- The first of enough equal records comes through paging first. -/
theorem head?_limitTo_skipUpTo (limit? skip? : Option UInt64) (r : Document)
    (rest : List Document) :
    (limitTo limit? (skipUpTo skip?
      (List.replicate ((skip?.map UInt64.toNat).getD 0 + 1) r ++ rest))).head? = some r := by
  -- One copy more stands in front than are skipped.
  have hskip : ∃ tail, skipUpTo skip?
      (List.replicate ((skip?.map UInt64.toNat).getD 0 + 1) r ++ rest) = r :: tail := by
    cases skip? with
    | none => exact ⟨rest, rfl⟩
    | some count =>
      refine ⟨rest, ?_⟩
      have hdrop : ∀ n : Nat, (List.replicate (n + 1) r ++ rest).drop n = r :: rest := by
        intro n
        rw [List.replicate_succ', List.append_assoc, List.drop_left' List.length_replicate]
        rfl
      exact hdrop count.toNat
  obtain ⟨tail, hskip⟩ := hskip
  rw [hskip]
  cases limit? with
  | none => rfl
  | some count =>
    -- A limit of zero limits nothing, and any other one leaves the first.
    by_cases hcount : count = 0
    · simp only [limitTo, hcount, ↓reduceIte, List.head?_cons]
    · have hpos : count.toNat ≠ 0 := by
        intro h
        exact hcount (UInt64.toNat_inj.mp h)
      obtain ⟨n, hn⟩ := Nat.exists_eq_succ_of_ne_zero hpos
      simp only [limitTo, hcount, ↓reduceIte, hn, List.take_succ_cons, List.head?_cons]

/-- Two records that a find puts in order, that the narrowed keys do not tell apart, and of which
the selection shows different fields. -/
theorem exists_run_pipeline_ne_find (hjoins : p.joins = []) (hexpanded : p.expanded = [])
    (hlimit : p.limit? ≠ some 0) (hselection : p.selection ≠ []) {S : Store} {r s : Document}
    (hfilter : ∀ record, S.satisfies p.filter record = true)
    (hlt : S.compareBy p.sort r s = .lt)
    (heq : ∀ a b, a = r ∨ a = s → b = r ∨ b = s →
      S.compareBy p.sort (a.keepPaths p.selection) (b.keepPaths p.selection) = .eq)
    (hne : r.keepPaths p.selection ≠ s.keepPaths p.selection) :
    ∃ records, S.run p.pipeline records ≠ S.find (.ofPlan p) records := by
  have hnarrow : ∀ records, narrow p.selection records =
      records.map (Document.keepPaths p.selection) := by
    intro records
    rw [narrow, if_neg (by simpa using hselection)]
  have hmatching : ∀ records : List Document,
      records.filter (S.satisfies p.filter) = records := by
    intro records
    exact List.filter_eq_self.mpr fun record _ => hfilter record
  let n := (p.skip?.map UInt64.toNat).getD 0 + 1
  let records := List.replicate n s ++ List.replicate n r
  refine ⟨records, fun hsame => ?_⟩
  -- The find moves the lesser records to the front, and the first of them is on the page.
  have hfind : (S.find (.ofPlan p) records).head? = some (r.keepPaths p.selection) := by
    show (narrow p.selection (limitTo p.limit? (skipUpTo p.skip? (S.sort p.sort
      (records.filter (S.satisfies p.filter)))))).head? = _
    rw [hmatching, S.sort_replicate hlt, hnarrow, List.head?_map, head?_limitTo_skipUpTo]
    rfl
  -- The pipeline sorts records that look the same to it, so they stay where they are.
  have hrun : (S.run p.pipeline records).head? = some (s.keepPaths p.selection) := by
    have hsort : S.sort p.sort (records.map (Document.keepPaths p.selection)) =
        records.map (Document.keepPaths p.selection) := by
      have hmem : ∀ a ∈ records, a = r ∨ a = s := by
        intro a ha
        rcases List.mem_append.mp ha with ha | ha
        · exact Or.inr (List.eq_of_mem_replicate ha)
        · exact Or.inl (List.eq_of_mem_replicate ha)
      apply S.sort_eq_self
      intro x hx y hy
      obtain ⟨a, ha, rfl⟩ := List.mem_map.mp hx
      obtain ⟨b, hb, rfl⟩ := List.mem_map.mp hy
      exact heq a b (hmem a ha) (hmem b hb)
    rw [S.run_pipeline hjoins hexpanded hlimit, hmatching, hnarrow, hsort, List.map_append,
      List.map_replicate, head?_limitTo_skipUpTo]
  rw [hsame, hfind] at hrun
  exact hne (Option.some.inj hrun)

/-- A key that the selection does not keep is enough: one record carries a mark below it, another
one a selected field. -/
theorem exists_store_run_pipeline_ne_find (hjoins : p.joins = []) (hexpanded : p.expanded = [])
    (hlimit : p.limit? ≠ some 0) (hselection : p.selection ≠ []) {key : SortKey}
    (hkey : key ∈ p.sort) (hlost : ¬p.selection.covers key.1 = true) :
    ∃ (S : Store) (records : List Document),
      S.run p.pipeline records ≠ S.find (.ofPlan p) records := by
  obtain ⟨q, hq⟩ := List.exists_mem_of_ne_nil _ hselection
  obtain ⟨mark, hmark⟩ := exists_not_mem (key.1.segments ++ p.selection.flatMap FieldPath.segments)
  have hmarkKey : mark ∉ key.1.segments := fun h => hmark (List.mem_append_left _ h)
  have hmarkSelection : ∀ t ∈ p.selection, mark ∉ t.segments := by
    intro t ht h
    exact hmark (List.mem_append_right _ (List.mem_flatMap.mpr ⟨t, ht, h⟩))
  let x := markedRecord mark key.1
  let y := plainRecord q
  -- In the whole records the lost key tells the two apart, so one of them comes first.
  have hdecides : (byMark mark).compareBy p.sort x y ≠ .eq := by
    intro heq
    have hmarks := compareBy_byMark_eq_iff.mp heq key hkey
    rw [keyMarks_markedRecord, keyMarks_eq_zero (valuesAt_plainRecord (hmarkSelection q hq))]
      at hmarks
    cases hmarks
  -- The mark lies below the lost key only, and the pipeline does not see it there.
  have hnarrowed : ∀ a, a = x ∨ a = y → ∀ path : FieldPath,
      keyMarks mark path (a.keepPaths p.selection) = 0 := by
    rintro a (rfl | rfl) path
    · apply keyMarks_keepPaths_eq_zero hmarkSelection
      intro hpath
      apply valuesAt_markedRecord hmarkKey
      rintro rfl
      exact hlost hpath
    · apply keyMarks_keepPaths_eq_zero hmarkSelection
      exact fun _ => valuesAt_plainRecord (hmarkSelection q hq)
  have hequal : ∀ a b, a = x ∨ a = y → b = x ∨ b = y → (byMark mark).compareBy p.sort
      (a.keepPaths p.selection) (b.keepPaths p.selection) = .eq := by
    intro a b ha hb
    apply compareBy_byMark_eq_iff.mpr
    intro k _
    rw [hnarrowed a ha, hnarrowed b hb]
  -- The field of the second record is selected, and the first one does not have it.
  have hne : x.keepPaths p.selection ≠ y.keepPaths p.selection := by
    intro hsame
    have hcovers : p.selection.covers q = true := Selection.covers_iff.mpr ⟨q, hq, q.covers_refl⟩
    have hqkey : ¬q.covers key.1 = true := fun h => hlost (Selection.covers_iff.mpr ⟨q, hq, h⟩)
    have hvalues : x.valuesOf q = y.valuesOf q := by
      rw [← valuesOf_keepPaths hcovers x, hsame, valuesOf_keepPaths hcovers y]
    rw [valuesOf_markedRecord (hmarkSelection q hq) hqkey, valuesOf_plainRecord] at hvalues
    cases hvalues
  refine ⟨byMark mark, ?_⟩
  cases hxy : (byMark mark).compareBy p.sort x y with
  | eq => exact absurd hxy hdecides
  | lt =>
    exact exists_run_pipeline_ne_find hjoins hexpanded hlimit hselection (fun _ => rfl) hxy hequal
      hne
  | gt =>
    have hyx : (byMark mark).compareBy p.sort y x = .lt := by
      rw [((byMark mark).transCmp_compareBy p.sort).toOrientedCmp.eq_swap, hxy]
      rfl
    exact exists_run_pipeline_ne_find hjoins hexpanded hlimit hselection (fun _ => rfl) hyx
      (fun a b ha hb => hequal a b ha.symm hb.symm) hne.symm

end Store

/-! ## Where the two agree -/

namespace Compile

variable {o : Options} {root? : Option Node} {q : FindQuery} {stages : List Stage}

/-- **A find and a pipeline agree on every store and collection exactly if the selection keeps the
sort keys**, for a root that joins nothing and does not limit to zero. -/
theorem run_eq_find_iff (hq : find o root? = .ok q) (hs : pipeline o root? = .ok stages)
    (hexpand : Plan.expandItems (expandClause? root?) = [])
    (htop : Plan.topCount? (topClause? root?) ≠ some 0) :
    (∀ (S : Store) (records : List Document), S.run stages records = S.find q records) ↔
      q.selection = [] ∨ ∀ key ∈ q.sort, q.selection.covers key.1 = true := by
  obtain ⟨p, hp, rfl, rfl⟩ := exists_plan hq hs
  obtain ⟨hassociations, hcount, hnothing⟩ := ends_of_plan hp
  have hjoins : p.joins = [] := hnothing hexpand
  have hexpanded : p.expanded = [] := by
    rw [hassociations, associations, hexpand]
    rfl
  have hlimit : p.limit? ≠ some 0 := by rwa [hcount]
  constructor
  · intro hagree
    by_cases hselection : p.selection = []
    · exact Or.inl hselection
    · refine Or.inr fun key hkey => ?_
      by_cases hcovers : p.selection.covers key.1 = true
      · exact hcovers
      · obtain ⟨S, records, hdiffer⟩ := Store.exists_store_run_pipeline_ne_find hjoins hexpanded
          hlimit hselection hkey hcovers
        exact absurd (hagree S records) hdiffer
  · intro hkeys S records
    exact Store.run_pipeline_eq_find hjoins hexpanded hlimit hkeys S records

/-- A key below a selected path, with paging. -/
theorem run_eq_find_by_city :
    let root : Node := .options
      ⟨none, none, some (.orderBy [.orderKey (.identifier "Address/City") (some .descending)]),
        some (.select [.identifier "Name", .identifier "Address"]),
        some (.skip (.literal (.integer 1))), some (.top (.literal (.integer 2))), none⟩
    ∃ q stages, find {} (some root) = .ok q ∧ pipeline {} (some root) = .ok stages ∧
      (projectionDocument q.selection).keys = ["Name", "Address"] ∧
      ∀ (S : Store) (records : List Document), S.run stages records = S.find q records := by
  intro root
  have hfind : (find {} (some root)).toOption.map (fun q =>
      ((projectionDocument q.selection).keys, q.sort.all fun key => q.selection.covers key.1)) =
        some (["Name", "Address"], true) := by
    decide +kernel
  have hpipeline : (pipeline {} (some root)).isOk = true := by decide +kernel
  cases hq : find {} (some root) with
  | error =>
    rw [hq] at hfind
    cases hfind
  | ok q =>
    cases hs : pipeline {} (some root) with
    | error =>
      rw [hs] at hpipeline
      cases hpipeline
    | ok stages =>
      rw [hq] at hfind
      obtain ⟨hnames, hcovered⟩ := Prod.mk.inj (Option.some.inj hfind)
      refine ⟨q, stages, rfl, rfl, hnames, ?_⟩
      apply (run_eq_find_iff hq hs rfl (by decide +kernel)).mpr
      exact Or.inr (List.all_eq_true.mp hcovered)

/-- Null comes before all other values. -/
def nullRank (v : Value) : Nat :=
  if v.kindName = "null" then 0 else 1

/-- The key is not selected. The find sorts by it, and the pipeline leaves the records in the order
of the collection. -/
theorem run_ne_find_by_age :
    let root : Node := .options
      ⟨none, none, some (.orderBy [.orderKey (.identifier "Age") (some .ascending)]),
        some (.select [.identifier "Name"]), none, none, none⟩
    let ann : Document := ⟨[("Name", .string "Ann"), ("Age", .int 40)]⟩
    let guest : Document := ⟨[("Room", .int 4)]⟩
    ∃ q stages, find {} (some root) = .ok q ∧ pipeline {} (some root) = .ok stages ∧
      ((Store.ofRank nullRank).run stages [ann, guest]).map Document.keys = [["Name"], []] ∧
      ((Store.ofRank nullRank).find q [ann, guest]).map Document.keys = [[], ["Name"]] ∧
      (Store.ofRank nullRank).run stages [ann, guest] ≠
        (Store.ofRank nullRank).find q [ann, guest] := by
  intro root ann guest
  let name : FieldPath := ⟨["Name"], by decide, by decide +kernel⟩
  let age : FieldPath := ⟨["Age"], by decide, by decide +kernel⟩
  have hplan : (plan {} (some root)).toOption.map (fun p =>
      (p.selection, p.sort, p.skip?, p.limit?)) =
        some ([name], [(age, .ascending)], none, none) := by
    decide +kernel
  cases hp : plan {} (some root) with
  | error =>
    rw [hp] at hplan
    cases hplan
  | ok p =>
    rw [hp] at hplan
    obtain ⟨hselection, hrest⟩ := Prod.mk.inj (Option.some.inj hplan)
    obtain ⟨hsort, hpaging⟩ := Prod.mk.inj hrest
    obtain ⟨hskip, hlimit⟩ := Prod.mk.inj hpaging
    obtain ⟨hexpanded, -, hjoins⟩ := ends_of_plan hp
    have hrun : ((Store.ofRank nullRank).run p.pipeline [ann, guest]).map Document.keys =
        [["Name"], []] := by
      have hstill : (Store.ofRank nullRank).sort [(age, .ascending)]
          (Store.narrow [name] [ann, guest]) =
          Store.narrow [name] [ann, guest] :=
        (Store.ofRank nullRank).sort_eq_self (by decide +kernel)
      rw [(Store.ofRank nullRank).run_pipeline (hjoins rfl) hexpanded (by rw [hlimit]; simp),
        hselection, hsort, hskip, hlimit]
      show ((Store.ofRank nullRank).sort _ (Store.narrow [name] [ann, guest])).map Document.keys = _
      rw [hstill]
      decide +kernel
    have hfind : ((Store.ofRank nullRank).find (.ofPlan p) [ann, guest]).map Document.keys =
        [[], ["Name"]] := by
      have hmoved : (Store.ofRank nullRank).sort [(age, .ascending)] [ann, guest] = [guest, ann] :=
        (Store.ofRank nullRank).sort_replicate (by decide +kernel) 1
      rw [Store.find, FindQuery.ofPlan, hselection, hsort, hskip, hlimit]
      show (Store.narrow [name] ((Store.ofRank nullRank).sort _ [ann, guest])).map Document.keys = _
      rw [hmoved]
      decide +kernel
    refine ⟨.ofPlan p, p.pipeline, by rw [find, hp]; rfl, by rw [pipeline, hp]; rfl, hrun, hfind,
      ?_⟩
    intro hsame
    rw [hsame, hfind] at hrun
    cases hrun

end Compile

end EntityQuery
