import EntityQuery.Proofs.Compile.Preorder
import EntityQuery.Proofs.Plan.Paging

/-!
# Counts in compiled queries

The count of a paging clause is told by its own node: the clauses around it leave it alone. So what
a query shows of a count is the integer that the node folds to. And as every stage of a pipeline
comes from clauses that were read, no count in it, at any depth, is another number than its clause
said.
-/

namespace EntityQuery

namespace Paging

/-- The counts that are said for the clause. -/
def said : Paging → Sequences → List Node
  | .skip => Sequences.skips
  | .top => Sequences.tops

/-- Of all clauses only its own says a count. -/
theorem said_ofNodes_filled (c : Paging) {clauses : QueryOptions} (h : OfOwnKind clauses.slots) :
    c.said (.ofNodes clauses.filled) = c.said (.ofNodes (c.slot clauses).toList) := by
  have happend : ∀ s t, c.said (s ++ t) = c.said s ++ c.said t := by
    cases c <;> exact fun _ _ => rfl
  have hother : ∀ n : Node, n.clause? ≠ some c.clause → c.said (.ofNode n) = [] := by
    intro n hn
    cases c <;> cases n <;> first | rfl | exact absurd rfl hn
  have hslot : (clauses.filled.filter fun n => n.clause? = some c.clause) =
      (c.slot clauses).toList := by
    rw [h.filter_filled]
    cases c <;> rfl
  rw [← Sequences.ofNodes_filter happend hother clauses.filled, hslot]

end Paging

namespace Plan

open Literal (Folds)

variable {o : Options} {base? : Option FieldPath} {collection? : Option String} {s : Sequences}
  {p q : Plan}

/-! ## Clauses -/

/-- The count of a plan is the last one that was said. -/
theorem Gathers.count (h : Gathers o base? collection? s p) (c : Paging) :
    (c.said s).getLast?.map (Plan.count c.clause) = (p.count? c).map .ok := by
  cases c with
  | skip => exact h.skip
  | top => exact h.limit

/-- Options that can be read have the count of their clause, which is an integer from zero on. -/
theorem count?_of_readClauses (c : Paging) {clauses : QueryOptions} {n : Node}
    (hslot : c.slot clauses = some (c.node n))
    (h : (readClauses o clauses (.start base?)).result = .ok q) :
    ∃ m : Int64, n.literal? = .ok (some (.integer m)) ∧ 0 ≤ m ∧
      q.count? c = some m.toUInt64 := by
  obtain ⟨hkinds, -⟩ := readClauses_eq_ok_iff.mp h
  have hcount := ((Gathers.start o base?).readClauses h).count c
  have hsaid : c.said (.ofNodes clauses.filled) = [n] := by
    rw [c.said_ofNodes_filled hkinds, hslot]
    cases c <;> rfl
  rw [Sequences.empty_append, hsaid] at hcount
  obtain ⟨k, hk, hread⟩ := Option.map_eq_some_iff.mp hcount.symm
  obtain ⟨m, hm, hle, rfl⟩ := count_eq_ok_iff.mp hread.symm
  exact ⟨m, hm, hle, hk⟩

/-- **Signs before a literal are folded exactly, and so is the count of a paging clause.** A literal
behind signs folds in one way, to a literal or to the fault that names its type. A paging clause
over it can be read, into whatever plan, if it folds to an integer from zero on; then this integer
is the count and nothing else in the plan changes. Among the options of a query or of an association
the clause gives this count too. A plan with such a count shows this number in the document of its
find, and in the stage of the clause, which stands in its pipeline and behind its join. -/
theorem counts_of_negated (c : Paging) (l : Literal) (k : ℕ) :
    (∃ r, l.Folds k r) ∧
      (∀ r, ((Node.literal l).negated k).literal? = r.map some ↔ l.Folds k r) ∧
      (∀ (o : Options) (p q : Plan),
        (read o (c.node ((Node.literal l).negated k)) p).result = .ok q ↔
          ∃ m : Int64, l.Folds k (.ok (.integer m)) ∧ 0 ≤ m ∧ q = p.setCount m.toUInt64 c) ∧
      (∀ (o : Options) (base? : Option FieldPath) (clauses : QueryOptions) (q : Plan),
        c.slot clauses = some (c.node ((Node.literal l).negated k)) →
        (readClauses o clauses (.start base?)).result = .ok q →
          ∃ m : Int64, l.Folds k (.ok (.integer m)) ∧ 0 ≤ m ∧ q.count? c = some m.toUInt64) ∧
      ∀ m : Int64, 0 ≤ m → ∀ q : Plan, q.count? c = some m.toUInt64 →
        q.ShowsCount c m ∧ q.countStage c ⊆ q.pipeline ∧
          ∀ foreignField unwind association,
            q.countStage c ⊆ joinStages foreignField unwind association q := by
  have hfolds (m : Int64) : ((Node.literal l).negated k).literal? = .ok (some (.integer m)) ↔
      l.Folds k (.ok (.integer m)) :=
    Node.literal?_negated_iff (r := .ok (.integer m))
  refine ⟨l.exists_folds k, fun r => Node.literal?_negated_iff, fun o p q => ?_,
    fun o base? clauses q hslot hread => ?_, fun m hm q hq => ?_⟩
  · rw [read_node_eq_ok_iff]
    simp only [hfolds]
  · obtain ⟨m, hm, hle, hcount⟩ := count?_of_readClauses c hslot hread
    exact ⟨m, (hfolds m).mp hm, hle, hcount⟩
  · exact ⟨showsCount_of_count? hm hq, q.countStage_subset_pipeline c,
      q.countStage_subset_joinStages c⟩

/-- Three signs before the least integer but one give the largest of all integers, and a top clause
takes it as its count. -/
theorem counts_of_negated_largest :
    let l : Literal := .integer (-9223372036854775807)
    let n := (Node.literal l).negated 3
    let clauses : QueryOptions := ⟨none, none, none, none, none, some (.top n), none⟩
    l.Folds 3 (.ok (.integer Int64.maxValue)) ∧ (0 : Int64) ≤ Int64.maxValue ∧
      (read {} (.top n) (.start none)).result =
        .ok ((start none).setLimit Int64.maxValue.toUInt64) ∧
      Paging.top.slot clauses = some (Paging.top.node n) ∧
      ∃ q, (readClauses {} clauses (.start none)).result = .ok q ∧
        q.count? .top = some Int64.maxValue.toUInt64 ∧ q.ShowsCount .top Int64.maxValue := by
  intro l n clauses
  obtain ⟨-, hfolds, hread, hclauses, hshows⟩ := counts_of_negated .top l 3
  have hlargest : l.Folds 3 (.ok (.integer Int64.maxValue)) :=
    (hfolds (.ok (.integer Int64.maxValue))).mp rfl
  have hnonneg : (0 : Int64) ≤ Int64.maxValue := by decide
  have hsome : (readClauses {} clauses (.start none)).error? = none := by decide +kernel
  obtain ⟨q, hq⟩ : ∃ q, (readClauses {} clauses (.start none)).result = .ok q := by
    rw [Outcome.result, hsome]
    exact ⟨_, rfl⟩
  obtain ⟨m, hm, -, hcount⟩ := hclauses {} none clauses q rfl hq
  obtain rfl : m = Int64.maxValue := by
    cases hm.unique hlargest
    rfl
  exact ⟨hlargest, hnonneg, (hread _ _ _).mpr ⟨_, hlargest, hnonneg, rfl⟩, rfl, q, hq, hcount,
    (hshows _ hnonneg q hcount).1⟩

/-! ## Stages -/

/-- A stage that counts is one of the clause itself, or comes with the associations. -/
theorem mem_joins_or_count?_of_mem_pipeline {c : Paging} {k : UInt64}
    (h : c.stage k ∈ p.pipeline) : c.stage k ∈ p.joins ∨ p.count? c = some k := by
  cases c <;>
    simpa [pipeline, matchingStage, projectStage, sortStage, skipStage, limitStage, Paging.stage,
      count?] using h

/-- The counts among the stages of an association are said by its own options. -/
theorem Segment.exists_count {trail : List ExpandItem} {stages : List Stage}
    (h : Segment o trail stages) {c : Paging} {k : UInt64} (hk : c.stage k ∈ stages) :
    ∃ n, Plan.count c.clause n = .ok k := by
  cases h with
  | @intro _ item join _ _ _ _ skip? limit? hjoin _ _ _ hskip hlimit =>
    have hne : c.stage k ≠ join := by
      rintro rfl
      have hoperator := hjoin.operator
      cases c <;> simp [Paging.stage, Stage.operator] at hoperator
    have hlast {ns : List Node} {k? : Option UInt64}
        (hsaid : ns.getLast?.map (Plan.count c.clause) = k?.map .ok) (hk? : k? = some k) :
        ∃ n, Plan.count c.clause n = .ok k := by
      rw [hk?] at hsaid
      obtain ⟨n, -, hn⟩ := Option.map_eq_some_iff.mp hsaid
      exact ⟨n, hn⟩
    -- The other stages of a segment are told from a count by their kinds.
    cases c with
    | skip =>
      have hne' : Stage.skip k ≠ join := hne
      exact hlast hskip (by simpa [Paging.stage, hne'] using hk)
    | top =>
      have hne' : Stage.limit k ≠ join := hne
      exact hlast hlimit (by simpa [Paging.stage, hne'] using hk)

end Plan

namespace Compile

open Plan (Gathers Segment)

variable {o : Options} {root? : Option Node} {p : Plan} {stages : List Stage}

/-- The plan of a root gathers what its clauses say. -/
theorem exists_gathers (h : plan o root? = .ok p) :
    ∃ s, Gathers o none p.collection? s p := by
  cases root? with
  | none =>
    cases h
    exact ⟨_, .start o none⟩
  | some n =>
    by_cases hn : n.clause? = none
    · cases n with
      | options clauses => exact ⟨_, (Gathers.start o none).readClauses h⟩
      | _ => cases hn
    · have hp := (Gathers.start o none).read hn h
      exact ⟨_, { hp with collection_eq := rfl }⟩

/-- **No count in a pipeline is another number than its clause said.** Wherever a stage of a
pipeline counts records, at the level of the query or behind the join of an association, its count
is an integer that a literal behind signs folds to, and the stage shows this integer. -/
theorem exists_folds_of_mem_pipeline (h : pipeline o root? = .ok stages) {c : Paging} {k : UInt64}
    (hk : c.stage k ∈ stages) :
    ∃ (l : Literal) (signs : ℕ) (m : Int64), l.Folds signs (.ok (.integer m)) ∧
      (k.toNat : ℤ) = m.toInt ∧ (c.stage k).toDocument = .single c.operator (.int m) := by
  obtain ⟨p, hp, rfl⟩ := exists_plan_of_pipeline h
  -- The count was read from a node, be it in the options of an association or in the query itself.
  have hread : ∃ n, Plan.count c.clause n = .ok k := by
    rcases Plan.mem_joins_or_count?_of_mem_pipeline hk with hk | hk
    · obtain ⟨segments, hflatten, hsegments⟩ :=
        Plan.exists_segments .nil (joins_and_isRead_of_plan hp).2
      rw [joins_of_plan hp, joins, hflatten] at hk
      obtain ⟨segment, hmem, hk⟩ := List.mem_flatten.mp hk
      obtain ⟨i, hi, rfl⟩ := List.getElem_of_mem hmem
      have htrail := hsegments.get (by rw [hsegments.length_eq]; exact hi) hi
      exact htrail.exists_count hk
    · obtain ⟨s, hs⟩ := exists_gathers hp
      have hcount := hs.count c
      rw [hk] at hcount
      obtain ⟨n, -, hn⟩ := Option.map_eq_some_iff.mp hcount
      exact ⟨n, hn⟩
  obtain ⟨n, hn⟩ := hread
  obtain ⟨m, hm, hle, rfl⟩ := Plan.count_eq_ok_iff.mp hn
  obtain ⟨l, signs, rfl⟩ := (Node.literal?_eq_some_iff.mp hm).exists_negated
  refine ⟨l, signs, m, Node.literal?_negated_iff.mp hm, toNat_toUInt64 hle, ?_⟩
  rw [c.toDocument_stage, Value.ofCount_toUInt64 hle]

end Compile

end EntityQuery
