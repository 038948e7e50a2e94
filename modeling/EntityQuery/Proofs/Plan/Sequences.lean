import EntityQuery.Proofs.Compile.Root
import EntityQuery.Proofs.Plan.Growth
import Mathlib.Data.List.Basic

/-!
# Nodes read one after the other

Nodes can be read into one plan in any number. What they say is sorted here by clauses, and the
options of a query are taken apart into their resource and the nodes that follow it. Whether a
clause can be read depends on the base alone and not on what was read before it.
-/

namespace EntityQuery

/-- The clause that a node belongs to where it stands alone. An expression belongs to the filter,
and a key to the order. The options of a query belong to no clause. -/
def Node.clause? (n : Node) : Option Clause :=
  match n.kind with
  | .filter | .literal | .identifier | .call | .binary | .unary => some .filter
  | .select => some .select
  | .orderBy | .orderKey => some .orderBy
  | .skip => some .skip
  | .top => some .top
  | .expand => some .expand
  | .options => none

/-! ## Sequences -/

/-- What nodes say, for each clause in the order in which it is said. -/
structure Sequences where
  expressions : List Node
  /-- The items of the selections, except of those that select everything. -/
  selected : List Node
  keys : List Node
  skips : List Node
  tops : List Node
  associations : List ExpandItem

namespace Sequences

def empty : Sequences :=
  ⟨[], [], [], [], [], []⟩

def ofNode : Node → Sequences
  | .filter expression? => { empty with expressions := expression?.toList }
  | .select items => { empty with selected := if items.any Plan.isEverything then [] else items }
  | .orderBy items => { empty with keys := items }
  | .orderKey expression direction => { empty with keys := [.orderKey expression direction] }
  | .skip n => { empty with skips := [n] }
  | .top n => { empty with tops := [n] }
  | .expand items => { empty with associations := items }
  | .options _ => empty
  | expression => { empty with expressions := [expression] }

def append (s t : Sequences) : Sequences where
  expressions := s.expressions ++ t.expressions
  selected := s.selected ++ t.selected
  keys := s.keys ++ t.keys
  skips := s.skips ++ t.skips
  tops := s.tops ++ t.tops
  associations := s.associations ++ t.associations

instance : Append Sequences := ⟨append⟩

def ofNodes : List Node → Sequences
  | [] => empty
  | n :: ns => ofNode n ++ ofNodes ns

theorem append_eq (s t : Sequences) : s ++ t = s.append t :=
  rfl

@[simp] theorem append_empty (s : Sequences) : s ++ empty = s := by
  simp [append_eq, append, empty]

@[simp] theorem empty_append (s : Sequences) : empty ++ s = s := by
  simp [append_eq, append, empty]

theorem append_assoc (s t u : Sequences) : s ++ t ++ u = s ++ (t ++ u) := by
  simp [append_eq, append]

/-! What is added to one sequence leaves the others as they are. -/

theorem append_expressions (s : Sequences) (expressions : List Node) :
    s ++ { empty with expressions } = { s with expressions := s.expressions ++ expressions } := by
  simp [append_eq, append, empty]

theorem append_selected (s : Sequences) (selected : List Node) :
    s ++ { empty with selected } = { s with selected := s.selected ++ selected } := by
  simp [append_eq, append, empty]

theorem append_keys (s : Sequences) (keys : List Node) :
    s ++ { empty with keys } = { s with keys := s.keys ++ keys } := by
  simp [append_eq, append, empty]

theorem append_skips (s : Sequences) (skips : List Node) :
    s ++ { empty with skips } = { s with skips := s.skips ++ skips } := by
  simp [append_eq, append, empty]

theorem append_tops (s : Sequences) (tops : List Node) :
    s ++ { empty with tops } = { s with tops := s.tops ++ tops } := by
  simp [append_eq, append, empty]

theorem append_associations (s : Sequences) (associations : List ExpandItem) :
    s ++ { empty with associations } =
      { s with associations := s.associations ++ associations } := by
  simp [append_eq, append, empty]

/-- What is said for one clause is said by the nodes of that clause. -/
theorem ofNodes_filter {β : Type} {f : Sequences → List β} {c : Clause}
    (happend : ∀ s t, f (s ++ t) = f s ++ f t)
    (hother : ∀ n : Node, n.clause? ≠ some c → f (ofNode n) = []) (nodes : List Node) :
    f (ofNodes (nodes.filter fun n => n.clause? = some c)) = f (ofNodes nodes) := by
  induction nodes with
  | nil => rfl
  | cons n nodes ih =>
    by_cases hn : n.clause? = some c
    · rw [List.filter_cons_of_pos (by simpa using hn), ofNodes, ofNodes, happend, happend, ih]
    · rw [List.filter_cons_of_neg (by simpa using hn), ofNodes, happend, hother n hn, ih,
        List.nil_append]

/-- Nodes that come in the same order clause by clause say the same. -/
theorem ofNodes_congr {nodes nodes' : List Node}
    (h : ∀ c : Clause, (nodes.filter fun n => n.clause? = some c) =
      nodes'.filter fun n => n.clause? = some c) : ofNodes nodes = ofNodes nodes' := by
  -- Each sequence comes from the nodes of its own clause alone.
  have hsame {β : Type} {f : Sequences → List β} {c : Clause}
      (happend : ∀ s t, f (s ++ t) = f s ++ f t)
      (hother : ∀ n : Node, n.clause? ≠ some c → f (ofNode n) = []) :
      f (ofNodes nodes) = f (ofNodes nodes') := by
    rw [← ofNodes_filter happend hother nodes, h c, ofNodes_filter happend hother]
  have hfields : (ofNodes nodes).expressions = (ofNodes nodes').expressions ∧
      (ofNodes nodes).selected = (ofNodes nodes').selected ∧
      (ofNodes nodes).keys = (ofNodes nodes').keys ∧
      (ofNodes nodes).skips = (ofNodes nodes').skips ∧
      (ofNodes nodes).tops = (ofNodes nodes').tops ∧
      (ofNodes nodes).associations = (ofNodes nodes').associations := by
    refine ⟨hsame (c := .filter) (fun _ _ => rfl) ?_, hsame (c := .select) (fun _ _ => rfl) ?_,
      hsame (c := .orderBy) (fun _ _ => rfl) ?_, hsame (c := .skip) (fun _ _ => rfl) ?_,
      hsame (c := .top) (fun _ _ => rfl) ?_, hsame (c := .expand) (fun _ _ => rfl) ?_⟩
    all_goals
      intro n hn
      cases n <;> first | rfl | exact absurd rfl hn
  obtain ⟨hexpressions, hselected, hkeys, hskips, htops, hassociations⟩ := hfields
  cases h : ofNodes nodes
  cases h' : ofNodes nodes'
  simp_all

end Sequences

/-! ## Slots -/

namespace QueryOptions

/-- The clauses behind the resource, in the order in which they are read. -/
def slots (clauses : QueryOptions) : List (Clause × Option Node) :=
  [(.filter, clauses.filter), (.select, clauses.select), (.orderBy, clauses.orderBy),
   (.skip, clauses.skip), (.top, clauses.top), (.expand, clauses.expand)]

/-- The nodes of the clauses that are there. -/
def filled (clauses : QueryOptions) : List Node :=
  clauses.slots.filterMap Prod.snd

end QueryOptions

/-- Each clause that is there is a node of its own kind. -/
def OfOwnKind (slots : List (Clause × Option Node)) : Prop :=
  ∀ slot ∈ slots, ∀ n, slot.2 = some n → n.kind = slot.1.kind

theorem clause?_ne_none_of_kind {n : Node} {c : Clause} (h : n.kind = c.kind) :
    n.clause? ≠ none := by
  rw [Node.clause?, h]
  cases c <;> simp [Clause.kind]

/-- A node of the kind of another clause than the filter is no part of the filter. A resource is an
expression, but it is no slot. -/
theorem clause?_eq_of_kind {n : Node} {c : Clause} (h : n.kind = c.kind) (hc : c ≠ .resource) :
    n.clause? = some c := by
  rw [Node.clause?, h]
  cases c <;> first | rfl | exact absurd rfl hc

theorem clause?_ne_none_of_mem_filled {clauses : QueryOptions} (h : OfOwnKind clauses.slots) :
    ∀ n ∈ clauses.filled, n.clause? ≠ none := by
  intro n hn
  obtain ⟨slot, hslot, hsome⟩ := List.mem_filterMap.mp hn
  exact clause?_ne_none_of_kind (h slot hslot n hsome)

/-- Of slots that are of their own kinds only one holds what belongs to a clause. -/
theorem OfOwnKind.filter_filled {clauses : QueryOptions} (h : OfOwnKind clauses.slots)
    (c : Clause) :
    (clauses.filled.filter fun n => n.clause? = some c) =
      clauses.slots.filterMap fun slot => if slot.1 = c then slot.2 else none := by
  have hresource : ∀ slot ∈ clauses.slots, slot.1 ≠ .resource := by simp [QueryOptions.slots]
  have hslot : ∀ slot ∈ clauses.slots, slot.2.filter (fun n => n.clause? = some c) =
      if slot.1 = c then slot.2 else none := by
    rintro ⟨c', n?⟩ hslot
    cases n? with
    | none => simp
    | some n =>
      have hn : n.clause? = some c' := clause?_eq_of_kind (h _ hslot n rfl) (hresource _ hslot)
      simp [Option.filter, hn]
  rw [QueryOptions.filled, List.filter_filterMap, List.filterMap_congr hslot]

namespace Plan

variable {o : Options} {p p' q : Plan}

/-- Read nodes one after the other, as long as each can be read to its end. -/
def readEach (o : Options) : List Node → Plan → Outcome :=
  Outcome.each (read o)

/-- Read clauses one after the other, each of which has to be of its own kind. -/
def readSlots (o : Options) : List (Clause × Option Node) → Plan → Outcome :=
  Outcome.each fun slot => readClause o slot.1 slot.2

theorem readOrder_eq (items : List Node) (p : Plan) :
    p.readOrder items = Outcome.each (fun item p => p.readOrderItem item) items p := by
  induction items generalizing p with
  | nil => rfl
  | cons item items ih => exact congrArg _ (funext ih)

theorem readItems_eq (items : List ExpandItem) (p : Plan) :
    readItems o items p = Outcome.each (readItem o) items p := by
  induction items generalizing p with
  | nil => rfl
  | cons item items ih => exact congrArg _ (funext ih)

/-- The key that an item of the order names. -/
def sortKey (base? : Option FieldPath) : Node → Except CompileError SortKey
  | .orderKey expression direction =>
    (expression.fieldPath base?).map fun path => (path, direction.getD .ascending)
  | .identifier name =>
    ((Node.identifier name).fieldPath base?).map fun path => (path, .ascending)
  | n => .error (.unsupported (.node n.kind) (.clause .orderBy))

theorem readOrderItem_eq (p : Plan) (item : Node) :
    p.readOrderItem item = .ofResult p (sortKey p.base? item) fun key => p.sortBy key.1 key.2 := by
  cases item with
  | orderKey expression direction =>
    rw [readOrderItem, readKey, sortKey]
    cases expression.fieldPath p.base? <;> rfl
  | identifier name =>
    rw [readOrderItem, readKey, sortKey]
    cases (Node.identifier name).fieldPath p.base? <;> rfl
  | _ => rfl

theorem readClauses_eq (clauses : QueryOptions) (p : Plan) :
    readClauses o clauses p =
      (p.readResource clauses.resource).andThen (readSlots o clauses.slots) := by
  obtain ⟨resource?, filter?, orderBy?, select?, skip?, top?, expand?⟩ := clauses
  rw [readClauses]
  simp only [Outcome.andThen_assoc, QueryOptions.slots, readSlots, Outcome.each,
    Outcome.andThen_ok]

/-- Clauses can be read if they are of their own kinds and their nodes can be read. -/
theorem readSlots_eq_ok {slots : List (Clause × Option Node)} :
    (readSlots o slots p).result = .ok q ↔
      OfOwnKind slots ∧ (readEach o (slots.filterMap Prod.snd) p).result = .ok q := by
  induction slots generalizing p with
  | nil => simp [readSlots, readEach, Outcome.each, OfOwnKind]
  | cons slot slots ih =>
    obtain ⟨clause, n?⟩ := slot
    have hkinds : OfOwnKind ((clause, n?) :: slots) ↔
        (∀ n, n? = some n → n.kind = clause.kind) ∧ OfOwnKind slots := List.forall_mem_cons
    unfold readSlots readEach at ih ⊢
    rw [Outcome.each, Outcome.result_andThen_eq_ok, hkinds]
    cases n? with
    | none => simp [readClause, Outcome.result_ok, ih]
    | some n =>
      rw [readClause, show List.filterMap Prod.snd ((clause, some n) :: slots) =
        n :: List.filterMap Prod.snd slots from rfl, Outcome.each, Outcome.result_andThen_eq_ok]
      by_cases hn : n.kind = clause.kind
      · simp [hn, ih, and_left_comm]
      · simp [hn, Outcome.result_fail]

theorem readClause_eq_readEach {c : Clause} {n? : Option Node}
    (h : ∀ n, n? = some n → n.kind = c.kind) :
    readClause o c n? p = readEach o n?.toList p := by
  cases n? with
  | none => rfl
  | some n =>
    rw [readClause, if_pos (h n rfl)]
    exact (Outcome.andThen_ok _).symm

/-- **Options are read like their resource and then their nodes**, if these are of the kinds that
they should be of, and are not read otherwise. -/
theorem readClauses_eq_ok_iff {clauses : QueryOptions} :
    (readClauses o clauses p).result = .ok q ↔
      OfOwnKind clauses.slots ∧ ∃ r, (p.readResource clauses.resource).result = .ok r ∧
        (readEach o clauses.filled r).result = .ok q := by
  rw [readClauses_eq, Outcome.result_andThen_eq_ok]
  simp only [readSlots_eq_ok, QueryOptions.filled]
  constructor
  · rintro ⟨r, hresource, hkinds, hread⟩
    exact ⟨hkinds, r, hresource, hread⟩
  · rintro ⟨hkinds, r, hresource, hread⟩
    exact ⟨r, hresource, hkinds, hread⟩

/-- A resource names the collection unless it has a name. -/
theorem readResource_eq_ok {n? : Option Node} :
    (p.readResource n?).result = .ok q ↔
      n? = none ∧ q = p ∨ ∃ name path, n? = some (.identifier name) ∧
        (Node.identifier name).fieldPath none = .ok path ∧
        q = { p with collection? := some (p.collection?.getD path.first) } := by
  have hset (name : String) :
      p.setCollection name = { p with collection? := some (p.collection?.getD name) } := by
    unfold setCollection
    cases p.collection? <;> rfl
  cases n? with
  | none => simp [readResource, Outcome.result_ok, eq_comm]
  | some n =>
    cases n with
    | identifier name =>
      have hkind : (Node.identifier name).kind = Clause.resource.kind := rfl
      rw [readResource, if_pos hkind, Outcome.result_ofResult_eq_ok]
      simp [hset, eq_comm]
    | _ =>
      rw [readResource, if_neg (by simp [Node.kind, Clause.kind]), Outcome.result_fail]
      simp

/-! ## What reading depends on -/

theorem base?_read (n : Node) (p : Plan) : (read o n p).plan.base? = p.base? :=
  (grows_read n p).base?_eq

theorem error?_readOrder (items : List Node) (h : p.base? = p'.base?) :
    (p.readOrder items).error? = (p'.readOrder items).error? := by
  rw [readOrder_eq, readOrder_eq]
  refine Outcome.error?_each (fun item r => ?_) (fun item r r' hr => ?_) items h
  · exact (grows_readOrderItem (o := {}) r item).base?_eq
  · rw [readOrderItem_eq, readOrderItem_eq, hr]
    exact Outcome.error?_ofResult

theorem error?_readItems (items : List ExpandItem) (h : p.base? = p'.base?) :
    (readItems o items p).error? = (readItems o items p').error? := by
  rw [readItems_eq, readItems_eq]
  refine Outcome.error?_each (fun item r => ?_) (fun item r r' hr => ?_) items h
  · exact (grows_readItem item r).base?_eq
  · obtain ⟨path, options?⟩ := item
    rw [readItem, readItem, hr]
    -- The options of the item are read into a plan of their own, which is the same for both.
    split
    · rfl
    · exact Outcome.error?_ofResult

/-- Whether a clause can be read does not depend on what was read before it. -/
theorem error?_read {n : Node} (hn : n.clause? ≠ none) (h : p.base? = p'.base?) :
    (read o n p).error? = (read o n p').error? := by
  -- Of the plan nothing but its base is looked at.
  cases n with
  | options => exact absurd rfl hn
  | filter expression? =>
    cases expression? with
    | none => rfl
    | some expression =>
      show (p.readFilter o expression).error? = (p'.readFilter o expression).error?
      unfold readFilter
      rw [h]
      exact Outcome.error?_ofResult
  | orderBy items => exact error?_readOrder items h
  | orderKey expression direction =>
    show (p.readKey expression direction).error? = (p'.readKey expression direction).error?
    unfold readKey
    rw [h]
    exact Outcome.error?_ofResult
  | select items =>
    show (p.readSelection items).error? = (p'.readSelection items).error?
    unfold readSelection
    split
    · rfl
    · rw [h]
      exact Outcome.error?_ofResult
  | skip n => exact Outcome.error?_ofResult
  | top n => exact Outcome.error?_ofResult
  | expand items => exact error?_readItems items h
  | literal | identifier | call | binary | unary =>
    show (p.readFilter o _).error? = (p'.readFilter o _).error?
    unfold readFilter
    rw [h]
    exact Outcome.error?_ofResult

/-- Clauses can be read one after the other if each of them can be read alone. -/
theorem error?_readEach_eq_none {nodes : List Node} (hnodes : ∀ n ∈ nodes, n.clause? ≠ none)
    (p : Plan) :
    (readEach o nodes p).error? = none ↔
      ∀ n ∈ nodes, (read o n (.start p.base?)).error? = none := by
  induction nodes generalizing p with
  | nil => simp [readEach, Outcome.each, Outcome.ok]
  | cons n nodes ih =>
    obtain ⟨hn, hnodes⟩ := List.forall_mem_cons.mp hnodes
    have hfirst : (read o n (.start p.base?)).error? = (read o n p).error? := error?_read hn rfl
    rw [List.forall_mem_cons, hfirst, ← base?_read n p (o := o), ← ih hnodes]
    unfold readEach
    rw [Outcome.each, Outcome.andThen]
    cases he : (read o n p).error? with
    | none => simp
    | some e => simp [he]

/-- Of clauses that have been read, any can be read again: in another order, and without those that
stood before them. -/
theorem exists_readEach {nodes nodes' : List Node} (hnodes : ∀ n ∈ nodes, n.clause? ≠ none)
    (h : (readEach o nodes p).result = .ok q) (hsubset : nodes' ⊆ nodes)
    (hbase : p'.base? = p.base?) : ∃ q', (readEach o nodes' p').result = .ok q' := by
  have hnone : (readEach o nodes p).error? = none := by
    rw [Outcome.result_eq_ok_iff.mp h]
    rfl
  have hnone' : (readEach o nodes' p').error? = none := by
    rw [error?_readEach_eq_none fun n hn => hnodes n (hsubset hn), hbase]
    exact fun n hn => (error?_readEach_eq_none hnodes p).mp hnone n (hsubset hn)
  exact ⟨(readEach o nodes' p').plan, by rw [Outcome.result, hnone']⟩

end Plan

end EntityQuery
