import EntityQuery.Compile.Target
import EntityQuery.Document.Extended
import EntityQuery.Proofs.Condition.Negation
import EntityQuery.Proofs.Plan.Outcome

/-!
# Counts of records

Two clauses page through the records: one says how many are left out, the other how many are given.
Both read their count in one way, and what a plan shows of a count is the number that was read. No
count comes near the end of its range, because it was an integer before.
-/

namespace EntityQuery

/-! ## Counts as integers -/

/-- An integer from zero on is the same number as a count. -/
theorem toNat_toUInt64 {m : Int64} (h : 0 ≤ m) : (m.toUInt64.toNat : ℤ) = m.toInt := by
  have hm : 0 ≤ m.toInt := Int64.le_iff_toInt_le.mp h
  rw [Int64.toNat_toUInt64_of_le h]
  exact Int.toNat_of_nonneg hm

/-- A count that was an integer is shown as this integer. -/
theorem Value.ofCount_toUInt64 {m : Int64} (h : 0 ≤ m) : Value.ofCount m.toUInt64 = .int m := by
  have hcount := toNat_toUInt64 h
  have hmax : m.toInt < 2 ^ 63 := m.toInt_lt
  have hfits : m.toUInt64.toNat ≤ Int64.maxValue.toInt.toNat := by
    rw [Int64.toInt_maxValue]
    omega
  rw [ofCount, if_pos hfits]
  congr 1
  rw [← Int64.ofInt_eq_ofNat, hcount, Int64.ofInt_toInt]

/-- A document that holds one integer is written as its key and the digits of the integer. -/
theorem Document.toList_display_single (key : String) (m : Int64) :
    (Document.single key (.int m)).display.toList =
      '{' :: Json.Style.display.string key ++ ':' :: Text.integer m.toInt ++ ['}'] := by
  rw [display, Json.Style.compact, String.toList_ofList, toJson, single, Value.toJson,
    Value.entriesToJson, Value.entriesToJson, Value.toJson]
  simp [Json.Style.value, Json.Style.members, Json.Style.lineBreak]

/-! ## The two clauses -/

/-- The clauses that page through the records. -/
inductive Paging where
  | skip | top

namespace Paging

def clause : Paging → Clause
  | .skip => .skip
  | .top => .top

/-- The clause with its count. -/
def node : Paging → Node → Node
  | .skip => .skip
  | .top => .top

/-- The clause among the options of a query. -/
def slot : Paging → QueryOptions → Option Node
  | .skip => QueryOptions.skip
  | .top => QueryOptions.top

def stage : Paging → UInt64 → Stage
  | .skip => .skip
  | .top => .limit

def operator : Paging → String
  | .skip => "$skip"
  | .top => "$limit"

/-- The name of the count in the document of a find. -/
def key : Paging → String
  | .skip => "skip"
  | .top => "limit"

theorem string_operator (c : Paging) :
    Json.Style.display.string c.operator = '"' :: c.operator.toList ++ ['"'] := by
  cases c <;> rfl

theorem toDocument_stage (c : Paging) (k : UInt64) :
    (c.stage k).toDocument = .single c.operator (.ofCount k) := by
  cases c <;> rfl

end Paging

namespace Plan

def count? (p : Plan) : Paging → Option UInt64
  | .skip => p.skip?
  | .top => p.limit?

def setCount (p : Plan) (count : UInt64) : Paging → Plan
  | .skip => p.setSkip count
  | .top => p.setLimit count

/-- The stage of the clause, unless the clause says nothing. -/
def countStage (p : Plan) : Paging → List Stage
  | .skip => p.skipStage
  | .top => p.limitStage

theorem countStage_eq (p : Plan) (c : Paging) :
    p.countStage c = ((p.count? c).map c.stage).toList := by
  cases c <;> rfl

theorem find?_key (p : Plan) (c : Paging) :
    (FindQuery.ofPlan p).toDocument.find? c.key =
      some (FindQuery.orNull Value.ofCount (p.count? c)) := by
  cases c <;> rfl

variable {o : Options} {p q : Plan} {n : Node}

theorem countStage_subset_pipeline (p : Plan) (c : Paging) : p.countStage c ⊆ p.pipeline := by
  intro s hs
  cases c with
  | skip => exact List.mem_append_left _ (List.mem_append_right _ hs)
  | top => exact List.mem_append_right _ hs

theorem countStage_subset_joinStages (p : Plan) (c : Paging) (foreignField : String)
    (unwind : Bool) (association : FieldPath) :
    p.countStage c ⊆ joinStages foreignField unwind association p := by
  intro s hs
  apply List.mem_append_left
  cases c with
  | skip => exact List.mem_append_left _ (List.mem_append_right _ hs)
  | top => exact List.mem_append_right _ hs

/-! ## Reading -/

/-- The counts are the integers from zero on. -/
theorem count_eq_ok_iff {clause : Clause} {k : UInt64} :
    count clause n = .ok k ↔
      ∃ m : Int64, n.literal? = .ok (some (.integer m)) ∧ 0 ≤ m ∧ k = m.toUInt64 := by
  unfold count
  split
  · simp_all
  · rename_i m hm
    by_cases hle : 0 ≤ m
    · simp [hm, hle, eq_comm]
    · simp [hm, hle]
  · rename_i l hinteger hl
    have hne (m : Int64) : l ≠ .integer m := hinteger m
    simp [hl, hne]
  · simp_all

/-- A clause is read if its count is an integer from zero on, and then sets this count alone. -/
theorem read_node_eq_ok_iff (c : Paging) :
    (read o (c.node n) p).result = .ok q ↔
      ∃ m : Int64, n.literal? = .ok (some (.integer m)) ∧ 0 ≤ m ∧
        q = p.setCount m.toUInt64 c := by
  have hread : (read o (c.node n) p).result = .ok q ↔
      ∃ k, count c.clause n = .ok k ∧ p.setCount k c = q := by
    cases c <;> exact Outcome.result_ofResult_eq_ok
  rw [hread]
  simp only [count_eq_ok_iff]
  constructor
  · rintro ⟨_, ⟨m, hm, hle, rfl⟩, rfl⟩
    exact ⟨m, hm, hle, rfl⟩
  · rintro ⟨m, hm, hle, rfl⟩
    exact ⟨_, ⟨m, hm, hle, rfl⟩, rfl⟩

/-! ## Showing -/

/-- The plan holds the count, and the one stage of the clause and the document of the find show it
as this integer. The stage is written with its digits. -/
structure ShowsCount (p : Plan) (c : Paging) (m : Int64) : Prop where
  stored : ∃ k : UInt64, p.count? c = some k ∧ (k.toNat : ℤ) = m.toInt
  stage : ∃ s, p.countStage c = [s] ∧ s.toDocument = .single c.operator (.int m) ∧
    s.toDocument.display.toList =
      '{' :: '"' :: c.operator.toList ++ '"' :: ':' :: Text.integer m.toInt ++ ['}']
  find : (FindQuery.ofPlan p).toDocument.find? c.key = some (.int m)

theorem showsCount_of_count? {c : Paging} {m : Int64} (hm : 0 ≤ m)
    (h : p.count? c = some m.toUInt64) : p.ShowsCount c m := by
  have hdocument : (c.stage m.toUInt64).toDocument = .single c.operator (.int m) := by
    rw [c.toDocument_stage, Value.ofCount_toUInt64 hm]
  refine ⟨⟨_, h, toNat_toUInt64 hm⟩, ⟨c.stage m.toUInt64, ?_, hdocument, ?_⟩, ?_⟩
  · rw [countStage_eq, h]
    rfl
  · rw [hdocument, Document.toList_display_single, c.string_operator]
    simp
  · rw [find?_key, h, ← Value.ofCount_toUInt64 hm]
    rfl

end Plan

end EntityQuery
