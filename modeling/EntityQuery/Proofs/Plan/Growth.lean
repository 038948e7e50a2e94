import EntityQuery.Plan.Read
import EntityQuery.Proofs.Plan.Outcome

/-!
# How a plan grows

Whatever a node is, and whether or not its reading succeeds, what reading does to a plan is a
sequence of the few changes listed here. What each of these changes keeps therefore holds of every
plan that is read.
-/

namespace EntityQuery.Plan

/-- The plan `q` comes from `p` by reading: by the changes that clauses make, one after the
other. An association brings a plan of its own, which has grown from the start in the same way. -/
inductive Grows (o : Options) : Plan → Plan → Prop where
  | refl (p : Plan) : Grows o p p
  | setCollection {p q : Plan} (name : String) (h : Grows o p q) :
      Grows o p (q.setCollection name)
  | addFilter {p q : Plan} {expression : Node} {d : Document} (h : Grows o p q)
      (hd : (Condition.ofNode o q.base? expression).result = .ok d) :
      Grows o p (q.addFilter d (Condition.ofNode o q.base? expression).paths)
  | select {p q : Plan} {items : List Node} {paths : List FieldPath} (h : Grows o p q)
      (hpaths : selectedPaths q.base? items = .ok paths) : Grows o p (q.select paths)
  | sortBy {p q : Plan} {expression : Node} {path : FieldPath} (d : Direction) (h : Grows o p q)
      (hpath : expression.fieldPath q.base? = .ok path) : Grows o p (q.sortBy path d)
  | setSkip {p q : Plan} (count : UInt64) (h : Grows o p q) : Grows o p (q.setSkip count)
  | setLimit {p q : Plan} (count : UInt64) (h : Grows o p q) : Grows o p (q.setLimit count)
  | join {p q nested : Plan} {path : Node} {association : FieldPath} (h : Grows o p q)
      (hpath : path.fieldPath q.base? = .ok association)
      (hnested : Grows o (.start (some association)) nested) :
      Grows o p (q.join association (joinStages o.foreignField o.unwind association nested))

variable {o : Options} {p q r : Plan}

namespace Grows

theorem trans (h : Grows o p q) (h' : Grows o q r) : Grows o p r := by
  induction h' with
  | refl => exact h
  | setCollection name _ ih => exact .setCollection name (ih h)
  | addFilter _ hd ih => exact .addFilter (ih h) hd
  | select _ hpaths ih => exact .select (ih h) hpaths
  | sortBy d _ hpath ih => exact .sortBy d (ih h) hpath
  | setSkip count _ ih => exact .setSkip count (ih h)
  | setLimit count _ ih => exact .setLimit count (ih h)
  | join _ hpath hnested ih _ => exact .join (ih h) hpath hnested

/-- Reading never moves a plan to another base. -/
theorem base?_eq (h : Grows o p q) : q.base? = p.base? := by
  induction h with
  | refl => rfl
  | join _ _ _ ih _ => exact ih
  | _ => assumption

/-! ## Outcomes -/

theorem ofResult {α : Type} {x : Except CompileError α} {f : α → Plan}
    (h : ∀ a, x = .ok a → Grows o p (f a)) : Grows o p (Outcome.ofResult p x f).plan := by
  cases x with
  | error e => exact .refl p
  | ok a => exact h a rfl

theorem andThen {x : Outcome} {f : Plan → Outcome} (h : Grows o p x.plan)
    (hf : ∀ q, Grows o q (f q).plan) : Grows o p (x.andThen f).plan := by
  unfold Outcome.andThen
  split
  · exact h.trans (hf x.plan)
  · exact h

end Grows

/-! ## Single clauses -/

theorem grows_readResource (p : Plan) (n? : Option Node) : Grows o p (p.readResource n?).plan := by
  unfold readResource
  split
  · exact .refl p
  · split
    · exact .ofResult fun path _ => .setCollection path.first (.refl p)
    · exact .refl p

theorem grows_readFilter (p : Plan) (expression : Node) :
    Grows o p (p.readFilter o expression).plan :=
  .ofResult fun _ hd => .addFilter (.refl p) hd

theorem grows_readKey (p : Plan) (expression : Node) (direction : Option Direction) :
    Grows o p (p.readKey expression direction).plan :=
  .ofResult fun _ hpath => .sortBy (direction.getD .ascending) (.refl p) hpath

theorem grows_readOrderItem (p : Plan) (item : Node) : Grows o p (p.readOrderItem item).plan := by
  unfold readOrderItem
  split
  · exact grows_readKey p _ _
  · exact grows_readKey p _ _
  · exact .refl p

theorem grows_readOrder (p : Plan) (items : List Node) : Grows o p (p.readOrder items).plan := by
  induction items generalizing p with
  | nil => exact .refl p
  | cons item items ih => exact .andThen (grows_readOrderItem p item) ih

theorem grows_readSelection (p : Plan) (items : List Node) :
    Grows o p (p.readSelection items).plan := by
  unfold readSelection
  split
  · exact .refl p
  · exact .ofResult fun _ hpaths => .select (.refl p) hpaths

/-! ## Whole queries -/

mutual

theorem grows_read (n : Node) (p : Plan) : Grows o p (read o n p).plan := by
  cases n with
  | options clauses => exact grows_readClauses clauses p
  | filter expression? =>
    cases expression? with
    | none => exact .refl p
    | some expression => exact grows_readFilter p expression
  | orderBy items => exact grows_readOrder p items
  | orderKey expression direction => exact grows_readKey p expression direction
  | select items => exact grows_readSelection p items
  | skip n => exact .ofResult fun count _ => .setSkip count (.refl p)
  | top n => exact .ofResult fun count _ => .setLimit count (.refl p)
  | expand items => exact grows_readItems items p
  | literal | identifier | call | binary | unary => exact grows_readFilter p _

theorem grows_readClauses (clauses : QueryOptions) (p : Plan) :
    Grows o p (readClauses o clauses p).plan := by
  obtain ⟨resource?, filter?, orderBy?, select?, skip?, top?, expand?⟩ := clauses
  exact (grows_readResource p resource?)
    |>.andThen (grows_readClause .filter filter?)
    |>.andThen (grows_readClause .select select?)
    |>.andThen (grows_readClause .orderBy orderBy?)
    |>.andThen (grows_readClause .skip skip?)
    |>.andThen (grows_readClause .top top?)
    |>.andThen (grows_readClause .expand expand?)

theorem grows_readClause (clause : Clause) (n? : Option Node) (p : Plan) :
    Grows o p (readClause o clause n? p).plan := by
  cases n? with
  | none => exact .refl p
  | some n =>
    rw [readClause]
    split
    · exact grows_read n p
    · exact .refl p

theorem grows_readItems (items : List ExpandItem) (p : Plan) :
    Grows o p (readItems o items p).plan := by
  cases items with
  | nil => exact .refl p
  | cons item items => exact .andThen (grows_readItem item p) (grows_readItems items)

theorem grows_readItem (item : ExpandItem) (p : Plan) : Grows o p (readItem o item p).plan := by
  obtain ⟨path, options?⟩ := item
  rw [readItem]
  split
  · exact .refl p
  · rename_i association hpath
    refine .ofResult fun nested hnested => .join (.refl p) hpath ?_
    rw [Outcome.eq_plan_of_result hnested]
    exact grows_readOptions options? _

theorem grows_readOptions (options? : Option Node) (p : Plan) :
    Grows o p (readOptions o options? p).plan := by
  cases options? with
  | none => exact .refl p
  | some n =>
    cases n with
    | options clauses => exact grows_readClauses clauses p
    | _ => exact .refl p

end

/-- A plan that is read from a root has grown from the start. -/
theorem grows_of_readOptions {options? : Option Node}
    (h : (readOptions o options? p).result = .ok q) : Grows o p q := by
  rw [Outcome.eq_plan_of_result h]
  exact grows_readOptions options? p

theorem grows_readRoot (root? : Option Node) (p : Plan) : Grows o p (readRoot o root? p).plan := by
  cases root? with
  | none => exact .refl p
  | some n => exact grows_read n p

end EntityQuery.Plan
