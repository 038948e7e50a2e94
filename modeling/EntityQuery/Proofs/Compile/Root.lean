import EntityQuery.Compile.Target
import EntityQuery.Proofs.Condition.Traced
import EntityQuery.Proofs.Plan.Outcome

/-!
# What the clauses of a root settle

Only the expand clause of a root joins associations, and only its top clause limits the records. So
the associations and the limit of a plan can be told from these two clauses alone.
-/

namespace EntityQuery

namespace Plan

variable {o : Options} {p q r : Plan}

/-- What the top clause and the expand clause settle is the same in both plans. -/
structure SameEnd (p q : Plan) : Prop where
  base? : q.base? = p.base?
  limit? : q.limit? = p.limit?
  expanded : q.expanded = p.expanded
  joins : q.joins = p.joins

namespace SameEnd

theorem refl (p : Plan) : SameEnd p p :=
  ⟨rfl, rfl, rfl, rfl⟩

theorem trans (h : SameEnd p q) (h' : SameEnd q r) : SameEnd p r :=
  ⟨h'.base?.trans h.base?, h'.limit?.trans h.limit?, h'.expanded.trans h.expanded,
    h'.joins.trans h.joins⟩

theorem ofResult {α : Type} {x : Except CompileError α} {f : α → Plan}
    (h : (Outcome.ofResult p x f).result = .ok q) (hf : ∀ a, SameEnd p (f a)) : SameEnd p q := by
  obtain ⟨a, -, rfl⟩ := Outcome.result_ofResult_eq_ok.mp h
  exact hf a

end SameEnd

/-! ## The clauses before the top clause -/

theorem sameEnd_readResource {n? : Option Node} (h : (p.readResource n?).result = .ok q) :
    SameEnd p q := by
  unfold readResource at h
  split at h
  · cases h
    exact .refl p
  · split at h
    · exact .ofResult h fun _ => ⟨rfl, rfl, rfl, rfl⟩
    · cases h

theorem sameEnd_readFilter {expression : Node} (h : (p.readFilter o expression).result = .ok q) :
    SameEnd p q :=
  .ofResult h fun _ => ⟨rfl, rfl, rfl, rfl⟩

theorem sameEnd_readKey {expression : Node} {direction : Option Direction}
    (h : (p.readKey expression direction).result = .ok q) : SameEnd p q :=
  .ofResult h fun _ => ⟨rfl, rfl, rfl, rfl⟩

theorem sameEnd_readOrder {items : List Node} (h : (p.readOrder items).result = .ok q) :
    SameEnd p q := by
  induction items generalizing p with
  | nil =>
    cases h
    exact .refl p
  | cons item items ih =>
    obtain ⟨r, hitem, hitems⟩ := Outcome.result_andThen_eq_ok.mp h
    refine .trans ?_ (ih hitems)
    unfold readOrderItem at hitem
    split at hitem
    · exact sameEnd_readKey hitem
    · exact sameEnd_readKey hitem
    · cases hitem

theorem sameEnd_readSelection {items : List Node} (h : (p.readSelection items).result = .ok q) :
    SameEnd p q := by
  unfold readSelection at h
  split at h
  · cases h
    exact .refl p
  · exact .ofResult h fun _ => ⟨rfl, rfl, rfl, rfl⟩

/-- A node that is neither a top nor an expand clause, nor holds such clauses, settles neither. -/
theorem sameEnd_read {n : Node} (hoptions : n.kind ≠ .options) (htop : n.kind ≠ .top)
    (hexpand : n.kind ≠ .expand) (h : (read o n p).result = .ok q) : SameEnd p q := by
  cases n with
  | options | top | expand => contradiction
  | filter expression? =>
    cases expression? with
    | none =>
      cases h
      exact .refl p
    | some expression => exact sameEnd_readFilter h
  | orderBy items => exact sameEnd_readOrder h
  | orderKey expression direction => exact sameEnd_readKey h
  | select items => exact sameEnd_readSelection h
  | skip n => exact .ofResult h fun _ => ⟨rfl, rfl, rfl, rfl⟩
  | literal | identifier | call | binary | unary => exact sameEnd_readFilter h

theorem readClause_eq_ok {clause : Clause} {n? : Option Node} :
    (readClause o clause n? p).result = .ok q ↔
      n? = none ∧ q = p ∨
        ∃ n, n? = some n ∧ n.kind = clause.kind ∧ (read o n p).result = .ok q := by
  cases n? with
  | none =>
    rw [readClause, Outcome.result_ok]
    simp [eq_comm]
  | some n =>
    rw [readClause]
    by_cases hn : n.kind = clause.kind
    · simp [hn]
    · simp [hn, Outcome.result_fail]

theorem sameEnd_readClause {clause : Clause} (htop : clause ≠ .top) (hexpand : clause ≠ .expand)
    {n? : Option Node} (h : (readClause o clause n? p).result = .ok q) : SameEnd p q := by
  rcases readClause_eq_ok.mp h with ⟨-, rfl⟩ | ⟨n, -, hn, h⟩
  · exact .refl _
  · refine sameEnd_read ?_ ?_ ?_ h
    all_goals
      rw [hn]
      cases clause <;> simp_all [Clause.kind]

theorem readClauses_eq_ok {clauses : QueryOptions}
    (h : (readClauses o clauses p).result = .ok q) :
    ∃ r s, SameEnd p r ∧ (readClause o .top clauses.top r).result = .ok s ∧
      (readClause o .expand clauses.expand s).result = .ok q := by
  obtain ⟨resource?, filter?, orderBy?, select?, skip?, top?, expand?⟩ := clauses
  -- The clauses are taken apart from the last one to the first.
  rw [readClauses] at h
  obtain ⟨p₆, h, hexpand⟩ := Outcome.result_andThen_eq_ok.mp h
  obtain ⟨p₅, h, htop⟩ := Outcome.result_andThen_eq_ok.mp h
  obtain ⟨p₄, h, hskip⟩ := Outcome.result_andThen_eq_ok.mp h
  obtain ⟨p₃, h, horder⟩ := Outcome.result_andThen_eq_ok.mp h
  obtain ⟨p₂, h, hselect⟩ := Outcome.result_andThen_eq_ok.mp h
  obtain ⟨p₁, hresource, hfilter⟩ := Outcome.result_andThen_eq_ok.mp h
  refine ⟨p₅, p₆, ?_, htop, hexpand⟩
  exact (sameEnd_readResource hresource)
    |>.trans (sameEnd_readClause (by decide) (by decide) hfilter)
    |>.trans (sameEnd_readClause (by decide) (by decide) hselect)
    |>.trans (sameEnd_readClause (by decide) (by decide) horder)
    |>.trans (sameEnd_readClause (by decide) (by decide) hskip)

/-! ## The top clause and the expand clause -/

/-- The number of records that a top clause allows. -/
def topCount? : Option Node → Option UInt64
  | some (.top n) => (count .top n).toOption
  | _ => none

/-- The items of an expand clause. -/
def expandItems : Option Node → List ExpandItem
  | some (.expand items) => items
  | _ => []

/-- The associations that items name below a base. -/
def associations (base? : Option FieldPath) (items : List ExpandItem) : List FieldPath :=
  items.filterMap fun item => (item.path.fieldPath base?).toOption

theorem read_top_eq_ok {n : Node} (h : (read o (.top n) p).result = .ok q) :
    ∃ k, topCount? (some (.top n)) = some k ∧ q = p.setLimit k := by
  obtain ⟨k, hk, rfl⟩ := Outcome.result_ofResult_eq_ok.mp h
  exact ⟨k, by simp [topCount?, hk, Except.toOption], rfl⟩

theorem readItem_eq_ok {item : ExpandItem} (h : (readItem o item p).result = .ok q) :
    ∃ association nested, item.path.fieldPath p.base? = .ok association ∧
      (readOptions o item.options (.start (some association))).result = .ok nested ∧
      q = p.join association (joinStages o.foreignField o.unwind association nested) := by
  obtain ⟨path, options?⟩ := item
  rw [readItem] at h
  split at h
  · cases h
  · rename_i association hpath
    obtain ⟨nested, hnested, rfl⟩ := Outcome.result_ofResult_eq_ok.mp h
    exact ⟨association, nested, hpath, hnested, rfl⟩

theorem readItems_eq_ok {items : List ExpandItem} (h : (readItems o items p).result = .ok q) :
    q.expanded = p.expanded ++ associations p.base? items ∧ q.limit? = p.limit? ∧
      (items = [] → q = p) := by
  induction items generalizing p with
  | nil =>
    rw [readItems, Outcome.result_ok] at h
    cases h
    simp [associations]
  | cons item items ih =>
    obtain ⟨r, hitem, hitems⟩ := Outcome.result_andThen_eq_ok.mp h
    obtain ⟨association, nested, hpath, -, rfl⟩ := readItem_eq_ok hitem
    obtain ⟨hexpanded, hlimit, -⟩ := ih hitems
    refine ⟨?_, hlimit, by simp⟩
    have hbase (stages : List Stage) : (p.join association stages).base? = p.base? := rfl
    rw [hexpanded, hbase]
    simp [associations, join, hpath, Except.toOption]

theorem readClause_top_eq_ok {n? : Option Node} (h : (readClause o .top n? p).result = .ok q) :
    q = p ∧ topCount? n? = none ∨ ∃ k, topCount? n? = some k ∧ q = p.setLimit k := by
  rcases readClause_eq_ok.mp h with ⟨rfl, rfl⟩ | ⟨n, rfl, hn, h⟩
  · exact Or.inl ⟨rfl, rfl⟩
  · cases n with
    | top n => exact Or.inr (read_top_eq_ok h)
    | _ => cases hn

/-- An expand clause is read by its items. -/
theorem readClause_expand_eq_ok {n? : Option Node}
    (h : (readClause o .expand n? p).result = .ok q) :
    (readItems o (expandItems n?) p).result = .ok q := by
  rcases readClause_eq_ok.mp h with ⟨rfl, rfl⟩ | ⟨n, rfl, hn, hread⟩
  · rfl
  · cases n with
    | expand items => exact hread
    | _ => cases hn

/-- All clauses before the expand clause leave the joins as they are, and of these the top clause
alone sets the limit. -/
theorem exists_readItems_of_readClauses {clauses : QueryOptions}
    (h : (readClauses o clauses p).result = .ok q) :
    ∃ r : Plan, r.base? = p.base? ∧ r.expanded = p.expanded ∧ r.joins = p.joins ∧
      r.limit? = (topCount? clauses.top).or p.limit? ∧
      (readItems o (expandItems clauses.expand) r).result = .ok q := by
  obtain ⟨s, r, hs, htop, hexpand⟩ := readClauses_eq_ok h
  have hr : r.base? = s.base? ∧ r.expanded = s.expanded ∧ r.joins = s.joins ∧
      r.limit? = (topCount? clauses.top).or s.limit? := by
    rcases readClause_top_eq_ok htop with ⟨rfl, hnone⟩ | ⟨k, hk, rfl⟩
    · rw [hnone]
      exact ⟨rfl, rfl, rfl, rfl⟩
    · rw [hk]
      exact ⟨rfl, rfl, rfl, rfl⟩
  obtain ⟨hbase, hexpanded, hjoins, hlimit⟩ := hr
  refine ⟨r, hbase.trans hs.base?, hexpanded.trans hs.expanded, hjoins.trans hs.joins, ?_,
    readClause_expand_eq_ok hexpand⟩
  rw [hlimit, hs.limit?]

end Plan

namespace Compile

variable {o : Options} {root? : Option Node} {p : Plan}

theorem exists_plan_of_find {q : FindQuery} (h : find o root? = .ok q) :
    ∃ p, plan o root? = .ok p ∧ q = .ofPlan p :=
  exists_of_map_eq_ok h

theorem exists_plan_of_pipeline {stages : List Stage} (h : pipeline o root? = .ok stages) :
    ∃ p, plan o root? = .ok p ∧ stages = p.pipeline :=
  exists_of_map_eq_ok h

/-- A find and a pipeline of one root come from one plan. -/
theorem exists_plan {q : FindQuery} {stages : List Stage} (hq : find o root? = .ok q)
    (hs : pipeline o root? = .ok stages) :
    ∃ p, plan o root? = .ok p ∧ q = .ofPlan p ∧ stages = p.pipeline := by
  obtain ⟨p, hp, rfl⟩ := exists_plan_of_find hq
  rw [pipeline, hp] at hs
  cases hs
  exact ⟨p, hp, rfl, rfl⟩

/-- The top clause of a root: the root itself, or the clause among its options. -/
def topClause? : Option Node → Option Node
  | some (.options clauses) => clauses.top
  | root? => root?

/-- The expand clause of a root: the root itself, or the clause among its options. -/
def expandClause? : Option Node → Option Node
  | some (.options clauses) => clauses.expand
  | root? => root?

/-- The associations that a root joins at its own level. -/
def associations (root? : Option Node) : List FieldPath :=
  Plan.associations none (Plan.expandItems (expandClause? root?))

/-- The plan of a root comes from the items of its expand clause, which are read when nothing has
been joined yet. -/
theorem exists_readItems_of_plan (h : plan o root? = .ok p) :
    ∃ r : Plan, r.base? = none ∧ r.expanded = [] ∧ r.joins = [] ∧
      r.limit? = Plan.topCount? (topClause? root?) ∧
      (Plan.readItems o (Plan.expandItems (expandClause? root?)) r).result = .ok p := by
  cases root? with
  | none => exact ⟨.start none, rfl, rfl, rfl, rfl, h⟩
  | some n =>
    cases n with
    | options clauses =>
      obtain ⟨r, hbase, hexpanded, hjoins, hlimit, hitems⟩ :=
        Plan.exists_readItems_of_readClauses h
      exact ⟨r, hbase, hexpanded, hjoins, hlimit.trans Option.or_none, hitems⟩
    -- A root can also be one of the two clauses alone.
    | top n =>
      obtain ⟨k, hk, rfl⟩ := Plan.read_top_eq_ok (o := o) h
      exact ⟨_, rfl, rfl, rfl, hk.symm, rfl⟩
    | expand items => exact ⟨.start none, rfl, rfl, rfl, rfl, h⟩
    | _ =>
      have hend : Plan.SameEnd (.start none) p :=
        Plan.sameEnd_read (by simp [Node.kind]) (by simp [Node.kind]) (by simp [Node.kind]) h
      exact ⟨p, hend.base?, hend.expanded, hend.joins, hend.limit?, rfl⟩

/-- The associations and the limit of a plan are those that the clauses of its root name, and
without associations nothing is joined. -/
theorem ends_of_plan (h : plan o root? = .ok p) :
    p.expanded = associations root? ∧ p.limit? = Plan.topCount? (topClause? root?) ∧
      (Plan.expandItems (expandClause? root?) = [] → p.joins = []) := by
  obtain ⟨r, hbase, hexpanded, hjoins, hlimit, hitems⟩ := exists_readItems_of_plan h
  obtain ⟨hassociations, hsame, hnothing⟩ := Plan.readItems_eq_ok hitems
  refine ⟨?_, hsame.trans hlimit, fun hempty => ?_⟩
  · rw [hassociations, hexpanded, hbase]
    rfl
  · rw [hnothing hempty, hjoins]

end Compile

end EntityQuery
