import EntityQuery.Proofs.Compile.Narrowing
import EntityQuery.Proofs.Plan.Sequences

/-!
# What a plan gathers

Whatever the order in which clauses are read, a plan holds of each clause what the nodes of this
clause tell in their own order. So the parts of a plan can be told one by one, each from its own
sequence.
-/

namespace EntityQuery.Plan

variable {o : Options} {base? : Option FieldPath} {collection? : Option String} {s : Sequences}
  {p q : Plan}

/-! ## Orders -/

/-- The order in which each path stands once, in the place where it is named first and in the
direction in which it is named last. -/
structure OrderedBy (keys : List SortKey) (sort : List SortKey) : Prop where
  paths : sort.map Prod.fst = (keys.map Prod.fst).eraseDups
  directions : ∀ key ∈ sort, keys.reverse.lookup key.1 = some key.2

theorem orderedBy_nil : OrderedBy [] [] where
  paths := rfl
  directions := by simp

theorem mem_setDirection_of_nodup {path : FieldPath} {d : Direction} {sort : List SortKey}
    (hnodup : (sort.map Prod.fst).Nodup) {key : SortKey} (h : key ∈ setDirection path d sort) :
    key = (path, d) ∨ key ∈ sort ∧ key.1 ≠ path := by
  induction sort with
  | nil => exact Or.inl (List.mem_singleton.mp h)
  | cons first sort ih =>
    obtain ⟨first, e⟩ := first
    obtain ⟨hfirst, hnodup⟩ := List.nodup_cons.mp hnodup
    rw [setDirection] at h
    split at h
    · rename_i heq
      subst heq
      rcases List.mem_cons.mp h with rfl | h
      · exact Or.inl rfl
      · -- The path stands once, so none of the other keys has it.
        refine Or.inr ⟨List.mem_cons_of_mem _ h, fun hkey => hfirst ?_⟩
        exact List.mem_map.mpr ⟨key, h, hkey⟩
    · rename_i hne
      rcases List.mem_cons.mp h with rfl | h
      · exact Or.inr ⟨List.mem_cons_self, hne⟩
      · exact (ih hnodup h).imp_right fun h => ⟨List.mem_cons_of_mem _ h.1, h.2⟩

theorem OrderedBy.setDirection {keys sort : List SortKey} (h : OrderedBy keys sort)
    (path : FieldPath) (d : Direction) :
    OrderedBy (keys ++ [(path, d)]) (setDirection path d sort) where
  paths := by
    rw [map_fst_setDirection, h.paths, eraseDups_eq_foldl_addNew, eraseDups_eq_foldl_addNew,
      List.map_append, List.foldl_append]
    rfl
  directions key hkey := by
    have hnodup : (sort.map Prod.fst).Nodup := by
      rw [h.paths, eraseDups_eq_foldl_addNew]
      exact nodup_foldl_addNew List.nodup_nil _
    rw [List.reverse_append, List.reverse_singleton, List.singleton_append, List.lookup_cons]
    rcases mem_setDirection_of_nodup hnodup hkey with rfl | ⟨hkey, hne⟩
    · simp
    · rw [beq_eq_false_iff_ne.mpr hne]
      exact h.directions key hkey

theorem OrderedBy.isEmpty_eq {keys sort : List SortKey} (h : OrderedBy keys sort) :
    sort.isEmpty = keys.isEmpty := by
  rw [← List.isEmpty_map (f := Prod.fst), h.paths]
  cases keys with
  | nil => rfl
  | cons key keys => rw [List.map_cons, List.eraseDups_cons]; rfl

/-- There is one such order. -/
theorem OrderedBy.unique {keys sort sort' : List SortKey} (h : OrderedBy keys sort)
    (h' : OrderedBy keys sort') : sort = sort' := by
  -- The paths and their places are settled by the keys, and so is the direction of each.
  have hpairs {sort : List SortKey} (h : OrderedBy keys sort) :
      sort.map (fun key => (key.1, some key.2)) =
        ((keys.map Prod.fst).eraseDups).map fun path => (path, keys.reverse.lookup path) := by
    rw [← h.paths, List.map_map]
    exact List.map_congr_left fun key hkey => by simp [h.directions key hkey]
  have hinjective : Function.Injective fun key : SortKey => (key.1, some key.2) := by
    rintro ⟨path, d⟩ ⟨path', d'⟩ heq
    simpa using heq
  exact List.map_injective_iff.mpr hinjective ((hpairs h).trans (hpairs h').symm)

/-! ## What is gathered -/

/-- The condition of all expressions in one conjunction, each added behind those before it. Without
any it is the one that always holds. -/
def conjunction (o : Options) (base? : Option FieldPath) :
    List Node → Except CompileError Document
  | [] => .ok .empty
  | e :: es => (Condition.ofNode o base? (es.foldl (Node.binary .and) e)).result

/-- The plan has this base and this collection, and of all else it holds what the sequences tell,
each part of it what its own sequence does. -/
structure Gathers (o : Options) (base? : Option FieldPath) (collection? : Option String)
    (s : Sequences) (p : Plan) : Prop where
  base_eq : p.base? = base?
  collection_eq : p.collection? = collection?
  filter : conjunction o base? s.expressions = .ok p.filter
  filterPaths : p.filterPaths =
    (s.expressions.flatMap fun e => (Condition.ofNode o base? e).paths).eraseDups
  selection : ∃ paths : List FieldPath,
    s.selected.map (selectedPath base?) = paths.map .ok ∧
      p.selection = paths.foldl Selection.add []
  sort : ∃ keys : List SortKey,
    s.keys.map (sortKey base?) = keys.map .ok ∧ OrderedBy keys p.sort
  skip : s.skips.getLast?.map (count .skip) = p.skip?.map .ok
  limit : s.tops.getLast?.map (count .top) = p.limit?.map .ok
  expanded : (s.associations.map fun item => item.path.fieldPath base?) = p.expanded.map .ok
  joins : p.joins = s.associations.flatMap (itemStages o base?)

namespace Gathers

theorem start (o : Options) (base? : Option FieldPath) :
    Gathers o base? none .empty (.start base?) where
  base_eq := rfl
  collection_eq := rfl
  filter := rfl
  filterPaths := rfl
  selection := ⟨[], rfl, rfl⟩
  sort := ⟨[], rfl, orderedBy_nil⟩
  skip := rfl
  limit := rfl
  expanded := rfl
  joins := rfl

theorem map_ok_injective {α : Type} :
    Function.Injective (List.map (Except.ok : α → Except CompileError α)) :=
  List.map_injective_iff.mpr fun _ _ => Except.ok.inj

theorem option_map_ok_injective {α : Type} :
    Function.Injective (Option.map (Except.ok : α → Except CompileError α)) :=
  Option.map_injective fun _ _ => Except.ok.inj

/-- The expressions alone tell the filter. -/
theorem filter_eq {collection'? : Option String} {t : Sequences}
    (h : Gathers o base? collection? s p) (h' : Gathers o base? collection'? t q)
    (hexpressions : s.expressions = t.expressions) : p.filter = q.filter := by
  have hq := h'.filter
  rw [← hexpressions, h.filter] at hq
  exact Except.ok.inj hq

/-- The sequences tell the whole plan. -/
theorem unique (h : Gathers o base? collection? s p) (h' : Gathers o base? collection? s q) :
    p = q := by
  -- Each part of a plan is told by one of the sequences.
  have hfilter : p.filter = q.filter := h.filter_eq h' rfl
  have hselection : p.selection = q.selection := by
    obtain ⟨paths, hpaths, hp⟩ := h.selection
    obtain ⟨paths', hpaths', hq⟩ := h'.selection
    rw [hp, hq, map_ok_injective (hpaths.symm.trans hpaths')]
  have hsort : p.sort = q.sort := by
    obtain ⟨keys, hkeys, hp⟩ := h.sort
    obtain ⟨keys', hkeys', hq⟩ := h'.sort
    rw [← map_ok_injective (hkeys.symm.trans hkeys')] at hq
    exact hp.unique hq
  have hskip : p.skip? = q.skip? := option_map_ok_injective (h.skip.symm.trans h'.skip)
  have hlimit : p.limit? = q.limit? := option_map_ok_injective (h.limit.symm.trans h'.limit)
  have hexpanded : p.expanded = q.expanded :=
    map_ok_injective (h.expanded.symm.trans h'.expanded)
  have hbase : p.base? = q.base? := h.base_eq.trans h'.base_eq.symm
  have hcollection : p.collection? = q.collection? := h.collection_eq.trans h'.collection_eq.symm
  have hpaths : p.filterPaths = q.filterPaths := h.filterPaths.trans h'.filterPaths.symm
  have hjoins : p.joins = q.joins := h.joins.trans h'.joins.symm
  cases p
  cases q
  simp_all

/-- A plan has an order exactly when a key is named. -/
theorem isEmpty_sort (h : Gathers o base? collection? s p) : p.sort.isEmpty = s.keys.isEmpty := by
  obtain ⟨keys, hkeys, hsort⟩ := h.sort
  rw [hsort.isEmpty_eq, ← List.isEmpty_map (f := (Except.ok : SortKey → Except CompileError _)),
    ← hkeys, List.isEmpty_map]

/-! ## Single changes -/

theorem addFilter (h : Gathers o base? collection? s p) {e : Node} {d : Document}
    (hd : (Condition.ofNode o base? e).result = .ok d) :
    Gathers o base? collection? { s with expressions := s.expressions ++ [e] }
      (p.addFilter d (Condition.ofNode o base? e).paths) :=
  { h with
    filter := by
      have hfilter := h.filter
      cases hs : s.expressions with
      | nil =>
        -- The first condition is joined to the one that always holds.
        rw [hs] at hfilter
        rw [Plan.addFilter, ← Except.ok.inj hfilter]
        exact hd
      | cons first rest =>
        rw [hs] at hfilter
        show (Condition.ofNode o base? ((rest ++ [e]).foldl (Node.binary .and) first)).result = _
        rw [List.foldl_append, List.foldl_cons, List.foldl_nil, Condition.ofNode,
          Traced.result_andThen_eq_ok]
        exact ⟨p.filter, hfilter, Traced.result_map_eq_ok.mpr ⟨d, hd, rfl⟩⟩
    filterPaths := by
      show List.foldl addNew p.filterPaths _ = _
      rw [h.filterPaths, eraseDups_eq_foldl_addNew, eraseDups_eq_foldl_addNew,
        ← List.foldl_append, List.flatMap_append, List.flatMap_singleton] }

theorem select (h : Gathers o base? collection? s p) {items : List Node} {paths : List FieldPath}
    (hpaths : items.map (selectedPath base?) = paths.map .ok) :
    Gathers o base? collection? { s with selected := s.selected ++ items } (p.select paths) :=
  { h with
    selection := by
      obtain ⟨before, hbefore, hp⟩ := h.selection
      refine ⟨before ++ paths, ?_, ?_⟩
      · rw [List.map_append, hbefore, hpaths, List.map_append]
      · rw [List.foldl_append, ← hp]
        rfl }

theorem sortBy (h : Gathers o base? collection? s p) {item : Node} {key : SortKey}
    (hkey : sortKey base? item = .ok key) :
    Gathers o base? collection? { s with keys := s.keys ++ [item] } (p.sortBy key.1 key.2) :=
  { h with
    sort := by
      obtain ⟨keys, hkeys, hp⟩ := h.sort
      refine ⟨keys ++ [key], ?_, hp.setDirection key.1 key.2⟩
      rw [List.map_append, hkeys, List.map_singleton, hkey, List.map_append, List.map_singleton] }

theorem setSkip (h : Gathers o base? collection? s p) {n : Node} {k : UInt64}
    (hk : count .skip n = .ok k) :
    Gathers o base? collection? { s with skips := s.skips ++ [n] } (p.setSkip k) :=
  { h with
    skip := by
      rw [List.getLast?_append, List.getLast?_singleton, Option.some_or, Option.map_some, hk]
      rfl }

theorem setLimit (h : Gathers o base? collection? s p) {n : Node} {k : UInt64}
    (hk : count .top n = .ok k) :
    Gathers o base? collection? { s with tops := s.tops ++ [n] } (p.setLimit k) :=
  { h with
    limit := by
      rw [List.getLast?_append, List.getLast?_singleton, Option.some_or, Option.map_some, hk]
      rfl }

theorem readItem (h : Gathers o base? collection? s p) {item : ExpandItem}
    (hread : (Plan.readItem o item p).result = .ok q) :
    Gathers o base? collection? { s with associations := s.associations ++ [item] } q := by
  obtain ⟨a, nested, ha, hnested, rfl⟩ := readItem_eq_ok hread
  rw [h.base_eq] at ha
  exact
    { h with
      expanded := by
        show _ = List.map Except.ok (p.expanded ++ [a])
        rw [List.map_append, h.expanded, List.map_singleton, ha, List.map_append,
          List.map_singleton]
      joins := by
        show p.joins ++ _ = _
        rw [List.flatMap_append, List.flatMap_singleton, itemStages_eq ha hnested, h.joins] }

/-! ## Nodes -/

theorem readOrder (h : Gathers o base? collection? s p) {items : List Node}
    (hread : (p.readOrder items).result = .ok q) :
    Gathers o base? collection? { s with keys := s.keys ++ items } q := by
  induction items generalizing s p with
  | nil =>
    cases hread
    rw [List.append_nil]
    exact h
  | cons item items ih =>
    obtain ⟨r, hitem, hitems⟩ := Outcome.result_andThen_eq_ok.mp hread
    rw [readOrderItem_eq, Outcome.result_ofResult_eq_ok, h.base_eq] at hitem
    obtain ⟨key, hkey, rfl⟩ := hitem
    simpa using ih (h.sortBy hkey) hitems

theorem readItems (h : Gathers o base? collection? s p) {items : List ExpandItem}
    (hread : (Plan.readItems o items p).result = .ok q) :
    Gathers o base? collection? { s with associations := s.associations ++ items } q := by
  induction items generalizing s p with
  | nil =>
    cases hread
    rw [List.append_nil]
    exact h
  | cons item items ih =>
    obtain ⟨r, hitem, hitems⟩ := Outcome.result_andThen_eq_ok.mp hread
    simpa using ih (h.readItem hitem) hitems

theorem readFilter (h : Gathers o base? collection? s p) {e : Node}
    (hread : (p.readFilter o e).result = .ok q) :
    Gathers o base? collection? { s with expressions := s.expressions ++ [e] } q := by
  rw [Plan.readFilter, Outcome.result_ofResult_eq_ok, h.base_eq] at hread
  obtain ⟨d, hd, rfl⟩ := hread
  exact h.addFilter hd

theorem readSelection (h : Gathers o base? collection? s p) {items : List Node}
    (hread : (p.readSelection items).result = .ok q) :
    Gathers o base? collection?
      { s with selected := s.selected ++ if items.any isEverything then [] else items } q := by
  unfold Plan.readSelection at hread
  split at hread
  · rename_i hany
    cases hread
    rw [if_pos hany, List.append_nil]
    exact h
  · rename_i hany
    rw [Outcome.result_ofResult_eq_ok, h.base_eq] at hread
    obtain ⟨paths, hpaths, rfl⟩ := hread
    rw [if_neg hany]
    exact h.select (map_selectedPath hpaths)

/-- Reading a clause adds what it says to the sequences. -/
theorem read (h : Gathers o base? collection? s p) {n : Node} (hn : n.clause? ≠ none)
    (hread : (Plan.read o n p).result = .ok q) :
    Gathers o base? collection? (s ++ .ofNode n) q := by
  cases n with
  | options => exact absurd rfl hn
  | filter expression? =>
    rw [Sequences.ofNode, Sequences.append_expressions]
    cases expression? with
    | none =>
      cases hread
      rw [Option.toList_none, List.append_nil]
      exact h
    | some e => exact h.readFilter hread
  | orderBy items =>
    rw [Sequences.ofNode, Sequences.append_keys]
    exact h.readOrder hread
  | orderKey expression direction =>
    have hitem : (p.readOrder [.orderKey expression direction]).result = .ok q := by
      rw [Plan.readOrder, Outcome.result_andThen_eq_ok]
      exact ⟨q, hread, rfl⟩
    rw [Sequences.ofNode, Sequences.append_keys]
    exact h.readOrder hitem
  | select items =>
    rw [Sequences.ofNode, Sequences.append_selected]
    exact h.readSelection hread
  | skip n =>
    obtain ⟨k, hk, rfl⟩ := Outcome.result_ofResult_eq_ok.mp hread
    rw [Sequences.ofNode, Sequences.append_skips]
    exact h.setSkip hk
  | top n =>
    obtain ⟨k, hk, rfl⟩ := Outcome.result_ofResult_eq_ok.mp hread
    rw [Sequences.ofNode, Sequences.append_tops]
    exact h.setLimit hk
  | expand items =>
    rw [Sequences.ofNode, Sequences.append_associations]
    exact h.readItems hread
  -- An expression in the place of a clause is a filter.
  | literal | identifier | call | binary | unary =>
    rw [Sequences.ofNode, Sequences.append_expressions]
    · exact h.readFilter hread
    all_goals nofun

/-- So a plan gathers what all the clauses say that are read into it. -/
theorem readEach (h : Gathers o base? collection? s p) {nodes : List Node}
    (hnodes : ∀ n ∈ nodes, n.clause? ≠ none)
    (hread : (Plan.readEach o nodes p).result = .ok q) :
    Gathers o base? collection? (s ++ .ofNodes nodes) q := by
  induction nodes generalizing s p with
  | nil =>
    cases hread
    exact (Sequences.append_empty s).symm ▸ h
  | cons n nodes ih =>
    obtain ⟨hn, hnodes⟩ := List.forall_mem_cons.mp hnodes
    obtain ⟨r, hfirst, hrest⟩ := Outcome.result_andThen_eq_ok.mp hread
    rw [Sequences.ofNodes, ← Sequences.append_assoc]
    exact ih (h.read hn hfirst) hnodes hrest

/-- Options say what their clauses say, and may name the collection besides. -/
theorem readClauses (h : Gathers o base? collection? s p) {clauses : QueryOptions}
    (hread : (Plan.readClauses o clauses p).result = .ok q) :
    Gathers o base? q.collection? (s ++ .ofNodes clauses.filled) q := by
  obtain ⟨hkinds, r, hresource, hfilled⟩ := readClauses_eq_ok_iff.mp hread
  -- A resource names the collection and says nothing else.
  have hr : Gathers o base? r.collection? s r := by
    rcases readResource_eq_ok.mp hresource with ⟨-, rfl⟩ | ⟨name, path, -, -, rfl⟩
    · exact { h with collection_eq := rfl }
    · exact { h with collection_eq := rfl }
  have hq := hr.readEach (clause?_ne_none_of_mem_filled hkinds) hfilled
  exact { hq with collection_eq := rfl }

end Gathers

end EntityQuery.Plan
