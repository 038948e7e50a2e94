import EntityQuery.Proofs.Compile.Gathering

/-!
# Clauses in any order

Clauses of different kinds do not disturb one another. A plan into which clauses were read is told
by what was read of each kind, so the kinds can be read in turn or mixed in any way.
-/

namespace EntityQuery.Plan

variable {o : Options} {base? : Option FieldPath} {p q : Plan}

/-- **A plan depends on what was read clause by clause, and not on how the clauses were mixed.** It
gathers what each clause says. Nodes that are put into another order, but not within a clause, can
be read as well and give the same plan; and options are read like their resource and then the nodes
of their clauses, one by one. -/
theorem readEach_interleaved {nodes : List Node} (hnodes : ∀ n ∈ nodes, n.clause? ≠ none)
    (h : (readEach o nodes (.start base?)).result = .ok q) :
    Gathers o base? none (.ofNodes nodes) q ∧
      (∀ nodes' : List Node, nodes'.Perm nodes →
        (∀ c : Clause, (nodes'.filter fun n => n.clause? = some c) =
          nodes.filter fun n => n.clause? = some c) →
        (readEach o nodes' (.start base?)).result = .ok q) ∧
      ∀ (clauses : QueryOptions) (p r : Plan),
        (read o (.options clauses) p).result = .ok r ↔
          OfOwnKind clauses.slots ∧ ∃ p' : Plan,
            (clauses.resource = none ∧ p' = p ∨ ∃ name path,
              clauses.resource = some (.identifier name) ∧
                (Node.identifier name).fieldPath none = .ok path ∧
                p' = { p with collection? := some (p.collection?.getD path.first) }) ∧
            (readEach o clauses.filled p').result = .ok r := by
  have hq : Gathers o base? none (.ofNodes nodes) q := by
    have hgathers := (Gathers.start o base?).readEach hnodes h
    rwa [Sequences.empty_append] at hgathers
  refine ⟨hq, fun nodes' hperm hsame => ?_, fun clauses p r => ?_⟩
  · have hnodes' : ∀ n ∈ nodes', n.clause? ≠ none := fun n hn => hnodes n (hperm.mem_iff.mp hn)
    -- Each node can be read alone, so the nodes can be read in this order too.
    obtain ⟨q', hread⟩ := exists_readEach hnodes h hperm.subset rfl
    have hgathers := (Gathers.start o base?).readEach hnodes' hread
    rw [Sequences.empty_append, Sequences.ofNodes_congr hsame] at hgathers
    rw [hread, hgathers.unique hq]
  · have hoptions : read o (.options clauses) p = readClauses o clauses p := rfl
    rw [hoptions, readClauses_eq_ok_iff]
    simp only [readResource_eq_ok]

/-- Two filters, two orders and a selection, read once mixed and once with the filters last. -/
theorem readEach_interleaved_filters_last :
    let age (c : Comparison) (n : Int64) : Node :=
      .binary (.comparison c) (.identifier "Age") (.literal (.integer n))
    let key (name : String) (d : Direction) : Node := .orderKey (.identifier name) (some d)
    let first := age .gt 18
    let second : Node := .filter (some (age .lt 65))
    let order : Node := .orderBy [key "Name" .ascending, key "Age" .ascending]
    let select : Node := .select [.identifier "Name"]
    let nodes := [first, order, select, second, key "Name" .descending]
    let nodes' := [select, order, key "Name" .descending, first, second]
    (∀ n ∈ nodes, n.clause? ≠ none) ∧ nodes'.Perm nodes ∧
      (∀ c : Clause, (nodes'.filter fun n => n.clause? = some c) =
        nodes.filter fun n => n.clause? = some c) ∧
      ∃ q, (readEach {} nodes (.start none)).result = .ok q ∧
        (readEach {} nodes' (.start none)).result = .ok q ∧
        Gathers {} none none (.ofNodes nodes) q ∧
        q.sort.map (fun k => (k.1.dotted, k.2)) =
          [("Name", .descending), ("Age", .ascending)] := by
  intro age key first second order select nodes nodes'
  have hnodes : ∀ n ∈ nodes, n.clause? ≠ none := by
    simp [nodes, Node.clause?, Node.kind, first, second, order, select, key, age]
  have hperm : nodes'.Perm nodes := by
    have hplaces : [2, 1, 4, 0, 3].Perm [0, 1, 2, 3, 4] := by decide
    exact hplaces.map fun i => nodes.getD i first
  have hsame : ∀ c : Clause, (nodes'.filter fun n => n.clause? = some c) =
      nodes.filter fun n => n.clause? = some c := by
    intro c
    cases c <;> rfl
  have hsort : (readEach {} nodes (.start none)).result.toOption.map
      (fun q => q.sort.map fun k => (k.1.dotted, k.2)) =
        some [("Name", .descending), ("Age", .ascending)] := by
    decide +kernel
  cases hq : (readEach {} nodes (.start none)).result with
  | error =>
    rw [hq] at hsort
    cases hsort
  | ok q =>
    rw [hq] at hsort
    obtain ⟨hgathers, hreordered, -⟩ := readEach_interleaved hnodes hq
    exact ⟨hnodes, hperm, hsame, q, rfl, hreordered nodes' hperm hsame, hgathers,
      Option.some.inj hsort⟩

end EntityQuery.Plan
