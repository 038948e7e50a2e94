import EntityQuery.Proofs.Condition.Built

/-!
# The fields that a condition reads

A condition reads the fields that its entries and those of its members are about, and the fields
that its expressions compare. Combining conditions neither adds a field nor loses one. So a
condition that is compiled reads just the fields that were resolved on the way.
-/

namespace EntityQuery.Condition

open Interpretation (referenced?)

/-- The fields that an aggregation expression compares. -/
def namesCompared : Value → List String
  | .document d => d.entries.flatMap fun e =>
    match e.2 with
    | .array operands => operands.filterMap fun
      | .string reference => referenced? reference
      | _ => none
    | _ => []
  | _ => []

/-- The fields that an entry reads which is no group. -/
def leafNames (key : String) (v : Value) : List String :=
  if key = "$expr" then namesCompared v
  else if isOperatorKey key then []
  else [key]

mutual

def namesRead : Document → List String
  | ⟨entries⟩ => entriesNames entries

def entriesNames : List (String × Value) → List String
  | [] => []
  | (key, v) :: entries => entryNames key v ++ entriesNames entries

def entryNames (key : String) : Value → List String
  | .array items => if isGroupKey key then itemsNames items else leafNames key (.array items)
  | v => leafNames key v

def itemsNames : List Value → List String
  | [] => []
  | v :: items => itemNames v ++ itemsNames items

def itemNames : Value → List String
  | .document d => namesRead d
  | _ => []

end

/-! ## Entries and items -/

theorem entriesNames_eq (entries : List (String × Value)) :
    entriesNames entries = entries.flatMap fun e => entryNames e.1 e.2 := by
  induction entries with
  | nil => rfl
  | cons e entries ih => rw [entriesNames, ih, List.flatMap_cons]

theorem namesRead_eq (d : Document) : namesRead d = entriesNames d.entries := by
  cases d
  rw [namesRead]

theorem itemsNames_eq (items : List Value) : itemsNames items = items.flatMap itemNames := by
  induction items with
  | nil => rfl
  | cons v items ih => rw [itemsNames, ih, List.flatMap_cons]

theorem entriesNames_append (xs ys : List (String × Value)) :
    entriesNames (xs ++ ys) = entriesNames xs ++ entriesNames ys := by
  rw [entriesNames_eq, List.flatMap_append, ← entriesNames_eq, ← entriesNames_eq]

theorem namesRead_single (key : String) (v : Value) :
    namesRead (.single key v) = entryNames key v := by
  rw [namesRead_eq]
  exact List.append_nil _

theorem namesRead_of_isEmpty {d : Document} (h : d.isEmpty = true) : namesRead d = [] := by
  rw [namesRead_eq, List.isEmpty_iff.mp h]
  rfl

theorem entryNames_of_field {name : String} (h : isOperatorKey name = false) (d : Document) :
    entryNames name (.document d) = [name] := by
  have hexpr : name ≠ "$expr" := by
    rintro rfl
    exact absurd h (by decide +kernel)
  rw [entryNames, leafNames, if_neg hexpr, if_neg (Bool.eq_false_iff.mp h)]
  exact fun _ h => nomatch h

/-! ## Groups -/

theorem namesRead_group_single {operator : String} (h : isGroupKey operator = true)
    (items : List Value) : namesRead (.single operator (.array items)) = items.flatMap itemNames := by
  rw [namesRead_single, entryNames, if_pos h, itemsNames_eq]

theorem flatMap_members {operator : String} (h : isGroupKey operator = true) (d : Document) :
    (members operator d).flatMap itemNames = namesRead d := by
  rw [members_eq]
  cases hd : groupItems? operator d with
  | none => exact List.append_nil _
  | some items =>
    rw [groupItems?_eq_some.mp hd, namesRead_group_single h]
    rfl

theorem namesRead_group {operator : String} (h : isGroupKey operator = true) (a b : Document) :
    namesRead (group operator a b) = namesRead a ++ namesRead b := by
  rw [group, namesRead_group_single h, List.flatMap_append, flatMap_members h, flatMap_members h]

theorem namesRead_either (a b : Document) :
    namesRead (either a b) = namesRead a ++ namesRead b :=
  namesRead_group (by decide) a b

theorem namesRead_complement (d : Document) : namesRead (complement d) = namesRead d := by
  rw [complement, namesRead_group_single (by decide)]
  exact List.append_nil _

/-! ## Conjunctions -/

/-- A field that is read on both sides can stand in the merged condition once. -/
theorem mem_namesRead_merge? {a b d : Document} (h : merge? a b = some d) {name : String} :
    name ∈ namesRead d ↔ name ∈ namesRead a ∨ name ∈ namesRead b := by
  rw [namesRead_eq b]
  -- Along the entries of `b`: what has been merged reads `a` and the entries done so far.
  refine merge?_induction
    (motive := fun done c => name ∈ namesRead c ↔ name ∈ namesRead a ∨ name ∈ entriesNames done)
    h ?_ ?_
  · simp [entriesNames]
  · intro done c c' key v _ hentry ih
    have hdone : name ∈ entriesNames (done ++ [(key, v)]) ↔
        name ∈ entriesNames done ∨ name ∈ entryNames key v := by
      rw [entriesNames_append, List.mem_append]
      simp [entriesNames]
    rw [hdone, ← or_assoc, ← ih]
    rcases mergeEntry?_eq_some hentry with ⟨-, rfl⟩ | ⟨before, m, n, after, rfl, hkey, -, -, -,
      rfl, rfl⟩
    · rw [namesRead_eq, entriesNames_append, List.mem_append, ← namesRead_eq]
      simp [entriesNames]
    · -- The field is there already, and it is read as before.
      rw [namesRead_eq, namesRead_eq, entriesNames_append, entriesNames_append, entriesNames,
        entriesNames, entryNames_of_field hkey, entryNames_of_field hkey, entryNames_of_field hkey]
      simp only [List.mem_append, List.mem_singleton]
      exact ⟨Or.inl, fun h => h.elim id fun hname => .inr (.inl hname)⟩

theorem mem_namesRead_both {a b : Document} {name : String} :
    name ∈ namesRead (both a b) ↔ name ∈ namesRead a ∨ name ∈ namesRead b := by
  rcases both_cases a b with ⟨he, hboth⟩ | ⟨he, hboth⟩ | hboth | hmerge
  · rw [hboth, namesRead_of_isEmpty he]
    simp
  · rw [hboth, namesRead_of_isEmpty he]
    simp
  · rw [hboth, namesRead_group (by decide), List.mem_append]
  · exact mem_namesRead_merge? hmerge

/-! ## The parts of conditions -/

theorem namesRead_onField (p : FieldPath) (key : String) (v : Value) :
    namesRead (onField p key v) = [p.dotted] := by
  rw [onField, namesRead_single, entryNames_of_field p.isOperatorKey_dotted]

theorem namesRead_onText (o : Options) (p : FieldPath) (m : TextSearch) (text : String) :
    namesRead (onText o p m text) = [p.dotted] := by
  rw [onText, namesRead_single, entryNames_of_field p.isOperatorKey_dotted]

theorem namesRead_betweenFields (c : Comparison) (p q : FieldPath) :
    namesRead (betweenFields c p q) = [p.dotted, q.dotted] := by
  rw [betweenFields, namesRead_single, entryNames, leafNames, if_pos rfl]
  · simp [namesCompared, Document.single, referenced?_reference]
  · intro _ h
    cases h

/-- **A condition reads the fields of its parts**, each under its dotted form. -/
theorem Built.mem_namesRead {o : Options} {base? : Option FieldPath} {d : Document}
    {ps : List FieldPath} (h : Built o base? d ps) {name : String} :
    name ∈ namesRead d ↔ ∃ p ∈ ps, p.dotted = name := by
  induction h with
  | always => simp [namesRead, Document.empty, entriesNames]
  | never =>
    rw [Condition.never, namesRead_single, entryNames, leafNames, if_pos rfl]
    · simp [namesCompared]
    · intro _ h
      cases h
  | comparison => simp [namesRead_onField, eq_comm]
  | membership => simp [namesRead_onField, eq_comm]
  | text => simp [namesRead_onText, eq_comm]
  | fields => simp [namesRead_betweenFields, eq_comm]
  | both _ _ iha ihb =>
    rw [mem_namesRead_both, iha, ihb]
    simp [or_and_right, exists_or]
  | either _ _ iha ihb =>
    rw [namesRead_either, List.mem_append, iha, ihb]
    simp [or_and_right, exists_or]
  | complement _ ih => rw [namesRead_complement, ih]

/-- Each of the fields lies below the base. -/
theorem Built.exists_fieldPath {o : Options} {base? : Option FieldPath} {d : Document}
    {ps : List FieldPath} (h : Built o base? d ps) {p : FieldPath} (hp : p ∈ ps) :
    ∃ n : Node, n.fieldPath base? = .ok p := by
  induction h with
  | always | never => cases hp
  | comparison hn | membership hn | text hn =>
    cases List.mem_singleton.mp hp
    exact ⟨_, hn⟩
  | fields hn hn' =>
    rcases List.mem_cons.mp hp with rfl | hp
    · exact ⟨_, hn⟩
    · cases List.mem_singleton.mp hp
      exact ⟨_, hn'⟩
  | both _ _ iha ihb | either _ _ iha ihb =>
    rcases List.mem_append.mp hp with hp | hp
    · exact iha hp
    · exact ihb hp
  | complement _ ih => exact ih hp

end EntityQuery.Condition
