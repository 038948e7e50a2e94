import EntityQuery.Proofs.Condition.Merge

/-!
# Rewriting conditions

A condition can be rewritten without a change to its build: its fields get other names, and other
things stand beside the operators on them. How two conditions are combined depends on none of this.
So a combination of rewritten conditions is the rewritten combination.
-/

namespace EntityQuery.Condition

/-- What to put for the parts of a condition. Different fields keep different names, and none gets
the name of an operator. -/
structure Rewriting where
  /-- The name of a field. -/
  name : String → String
  /-- What stands beside an operator on a field. -/
  operand : (operator : String) → Value → Value
  /-- What an aggregation expression says. -/
  expression : Value → Value
  name_injective : ∀ {a b}, name a = name b → a = b
  isOperatorKey_name : ∀ {a}, isOperatorKey a = false → isOperatorKey (name a) = false

namespace Rewriting

/-- Operators and groups keep their keys. -/
def key (R : Rewriting) (k : String) : String :=
  if isOperatorKey k then k else R.name k

/-- The operators on a field. -/
def operators (R : Rewriting) (d : Document) : Document :=
  ⟨d.entries.map fun e => (e.1, R.operand e.1 e.2)⟩

/-- What stands under a key that names no group. -/
def leaf (R : Rewriting) (k : String) (v : Value) : Value :=
  if k = "$expr" then R.expression v
  else if isOperatorKey k then v
  else match v with
    | .document d => .document (R.operators d)
    | v => v

mutual

def document (R : Rewriting) : Document → Document
  | ⟨entries⟩ => ⟨documentEntries R entries⟩

def documentEntries (R : Rewriting) : List (String × Value) → List (String × Value)
  | [] => []
  | (k, v) :: entries => (R.key k, value R k v) :: documentEntries R entries

def value (R : Rewriting) (k : String) : Value → Value
  | .array items => if isGroupKey k then .array (groupMembers R items) else R.leaf k (.array items)
  | v => R.leaf k v

def groupMembers (R : Rewriting) : List Value → List Value
  | [] => []
  | v :: vs => member R v :: groupMembers R vs

def member (R : Rewriting) : Value → Value
  | .document d => .document (document R d)
  | v => v

end

variable (R : Rewriting)

/-! ## Keys -/

theorem key_of_isOperatorKey {k : String} (h : isOperatorKey k = true) : R.key k = k := by
  rw [key, if_pos h]

theorem key_of_field {k : String} (h : isOperatorKey k = false) : R.key k = R.name k := by
  rw [key, if_neg (Bool.eq_false_iff.mp h)]

@[simp] theorem isOperatorKey_key (k : String) : isOperatorKey (R.key k) = isOperatorKey k := by
  cases h : isOperatorKey k with
  | true => rw [R.key_of_isOperatorKey h, h]
  | false => rw [R.key_of_field h, R.isOperatorKey_name h]

theorem key_injective {k l : String} (h : R.key k = R.key l) : k = l := by
  have hsame : isOperatorKey k = isOperatorKey l := by
    rw [← R.isOperatorKey_key k, h, R.isOperatorKey_key]
  cases hk : isOperatorKey k with
  | true =>
    rwa [R.key_of_isOperatorKey hk, R.key_of_isOperatorKey (hsame ▸ hk)] at h
  | false =>
    rw [R.key_of_field hk, R.key_of_field (hsame ▸ hk)] at h
    exact R.name_injective h

/-- A key is an operator exactly if it was that operator before. -/
theorem key_eq_operator {k op : String} (h : isOperatorKey op = true) : R.key k = op ↔ k = op := by
  constructor
  · intro hk
    apply R.key_injective
    rw [hk, R.key_of_isOperatorKey h]
  · rintro rfl
    exact R.key_of_isOperatorKey h

/-! ## Entries and members -/

theorem entries_document (d : Document) :
    (R.document d).entries = d.entries.map fun e => (R.key e.1, R.value e.1 e.2) := by
  obtain ⟨entries⟩ := d
  rw [document]
  show documentEntries R entries = _
  induction entries with
  | nil => rfl
  | cons e entries ih => rw [documentEntries, ih, List.map_cons]

theorem groupMembers_eq_map (items : List Value) : R.groupMembers items = items.map R.member := by
  induction items with
  | nil => rfl
  | cons v items ih => rw [groupMembers, ih, List.map_cons]

theorem document_single (k : String) (v : Value) :
    R.document (.single k v) = .single (R.key k) (R.value k v) :=
  rfl

@[simp] theorem isEmpty_document (d : Document) : (R.document d).isEmpty = d.isEmpty := by
  rw [Document.isEmpty, entries_document, List.isEmpty_map, Document.isEmpty]

theorem keys_document (d : Document) : (R.document d).keys = d.keys.map R.key := by
  rw [Document.keys, entries_document, List.map_map, Document.keys, List.map_map]
  rfl

theorem find?_document (d : Document) (k : String) :
    (R.document d).find? (R.key k) = (d.find? k).map (R.value k) := by
  rw [Document.find?, entries_document, Document.find?]
  induction d.entries with
  | nil => rfl
  | cons e entries ih =>
    rw [List.map_cons, List.lookup_cons, List.lookup_cons, ih]
    by_cases h : k = e.1
    · subst h
      simp
    · have hkey : R.key k ≠ R.key e.1 := fun he => h (R.key_injective he)
      simp [beq_false_of_ne h, beq_false_of_ne hkey]

theorem contains_document (d : Document) (k : String) :
    (R.document d).contains (R.key k) = d.contains k := by
  rw [Document.contains, find?_document, Option.isSome_map, Document.contains]

theorem document_insert (d : Document) (k : String) (v : Value) :
    R.document (d.insert k v) = (R.document d).insert (R.key k) (R.value k v) := by
  obtain ⟨entries⟩ := d
  rw [Document.insert, Document.insert, document, document]
  congr 1
  induction entries with
  | nil => rfl
  | cons e entries ih =>
    obtain ⟨l, w⟩ := e
    rw [Document.insertEntry, documentEntries, Document.insertEntry]
    by_cases h : l = k
    · subst h
      rw [if_pos rfl, if_pos rfl, documentEntries]
    · rw [if_neg h, if_neg fun he => h (R.key_injective he), documentEntries, ih]

theorem document_ofEntries (entries : List (String × Value)) :
    R.document (.ofEntries entries) =
      .ofEntries (entries.map fun e => (R.key e.1, R.value e.1 e.2)) := by
  unfold Document.ofEntries
  rw [List.foldl_map]
  exact (List.foldl_hom R.document fun d e => (R.document_insert d e.1 e.2).symm).symm

/-! ## Fields -/

theorem not_isGroupKey_of_field {k : String} (h : isOperatorKey k = false) :
    isGroupKey k = false := by
  rw [← Bool.not_eq_true]
  intro hk
  rw [isOperatorKey_of_isGroupKey hk] at h
  cases h

theorem leaf_of_field {k : String} (h : isOperatorKey k = false) (v : Value) :
    R.leaf k v = match v with
      | .document d => .document (R.operators d)
      | v => v := by
  have hexpr : k ≠ "$expr" := by
    rintro rfl
    exact absurd h (by decide +kernel)
  unfold leaf
  rw [if_neg hexpr, if_neg (Bool.eq_false_iff.mp h)]

theorem value_of_field {k : String} (h : isOperatorKey k = false) (v : Value) :
    R.value k v = match v with
      | .document d => .document (R.operators d)
      | v => v := by
  cases v with
  | array items =>
    rw [value, if_neg (Bool.eq_false_iff.mp (not_isGroupKey_of_field h)), R.leaf_of_field h]
  | _ => exact R.leaf_of_field h _

theorem keys_operators (d : Document) : (R.operators d).keys = d.keys := by
  rw [Document.keys, operators, List.map_map, Document.keys]
  rfl

theorem isOperators_operators (d : Document) : (R.operators d).isOperators = d.isOperators := by
  rw [Document.isOperators, keys_operators, Document.isOperators, Document.isEmpty, operators,
    List.isEmpty_map, Document.isEmpty]

theorem mergeOperators?_operators (a b : Document) :
    mergeOperators? (R.operators a) (R.operators b) =
      (mergeOperators? a b).map R.operators := by
  have hcontains : (R.operators a).contains = a.contains := by
    funext k
    rw [Bool.eq_iff_iff, Document.contains_iff, keys_operators, Document.contains_iff]
  rw [mergeOperators?, mergeOperators?, isOperators_operators, isOperators_operators,
    keys_operators, hcontains]
  split
  · rw [Option.map_some, operators, operators, operators, List.map_append]
  · rfl

/-! ## Combinations -/

theorem mergeEntry?_document (d : Document) (k : String) (v : Value) :
    mergeEntry? (R.document d) (R.key k, R.value k v) =
      ( mergeEntry? d (k, v)).map R.document := by
  unfold mergeEntry?
  dsimp only
  rw [find?_document]
  cases d.find? k with
  | none => rw [Option.map_none, Option.map_some, document_insert]
  | some existing =>
    rw [Option.map_some, isOperatorKey_key]
    cases hk : isOperatorKey k with
    | true => rfl
    | false =>
      -- Only the operators on a field are merged, and rewriting keeps the operators.
      rw [R.value_of_field hk, R.value_of_field hk]
      cases existing with
      | document a =>
        cases v with
        | document b =>
          have hinsert : ∀ m, (R.document d).insert (R.key k) (.document (R.operators m)) =
              R.document (d.insert k (.document m)) := by
            intro m
            rw [document_insert, R.value_of_field hk]
          simp [mergeOperators?_operators, hinsert, Function.comp_def]
        | _ => rfl
      | _ => rfl

theorem merge?_document (a b : Document) :
    merge? (R.document a) (R.document b) = (merge? a b).map R.document := by
  rw [merge?, entries_document, merge?]
  induction b.entries generalizing a with
  | nil => rfl
  | cons e entries ih =>
    obtain ⟨k, v⟩ := e
    rw [List.map_cons, List.foldlM_cons, List.foldlM_cons, mergeEntry?_document]
    cases mergeEntry? a (k, v) with
    | none => rfl
    | some d => exact ih d

/-! ## Groups -/

theorem value_of_group {k : String} (h : isGroupKey k = true) (v : Value) :
    R.value k v = match v with
      | .array items => .array (items.map R.member)
      | v => v := by
  have hexpr : k ≠ "$expr" := by
    rintro rfl
    exact absurd h (by decide)
  cases v with
  | array items => rw [value, if_pos h, groupMembers_eq_map]
  | _ =>
    show R.leaf k _ = _
    unfold leaf
    rw [if_neg hexpr, if_pos (isOperatorKey_of_isGroupKey h)]

theorem groupItems?_document {operator : String} (h : isGroupKey operator = true)
    (d : Document) :
    groupItems? operator (R.document d) = (groupItems? operator d).map (List.map R.member) := by
  refine groupItems?_eq_map R.key R.value (R.entries_document d)
    (fun k _ => R.key_eq_operator (isOperatorKey_of_isGroupKey h)) ?_ ?_
  · intro items
    rw [R.value_of_group h]
  · intro v items hv
    rw [R.value_of_group h] at hv
    cases v with
    | array items' => exact ⟨items', rfl⟩
    | _ => cases hv

theorem members_document {operator : String} (h : isGroupKey operator = true) (d : Document) :
    members operator (R.document d) = (members operator d).map R.member := by
  rw [members_eq, members_eq, R.groupItems?_document h]
  cases groupItems? operator d <;> rfl

theorem document_group {operator : String} (h : isGroupKey operator = true) (a b : Document) :
    R.document (group operator a b) = group operator (R.document a) (R.document b) := by
  rw [group, document_single, R.key_of_isOperatorKey (isOperatorKey_of_isGroupKey h),
    R.value_of_group h, group, R.members_document h, R.members_document h]
  dsimp only
  rw [List.map_append]

theorem itemShares_document (b : Document) (item : Value) :
    itemShares (R.document b) (R.member item) = itemShares b item := by
  cases item with
  | document m =>
    rw [member, itemShares, keys_document, List.any_map, itemShares]
    congr 1
    funext k
    rw [Function.comp, isOperatorKey_key, contains_document]
  | _ => rfl

theorem sharesField_document (a b : Document) :
    sharesField (R.document a) (R.document b) = sharesField a b := by
  have hitems : (itemShares (R.document b) ∘ R.member) = itemShares b :=
    funext (R.itemShares_document b)
  rw [sharesField_eq, sharesField_eq, R.groupItems?_document (by decide)]
  cases groupItems? "$and" a with
  | none => rfl
  | some items => simp [List.any_map, hitems]

/-! ## Connectives -/

/-- **Rewriting commutes with conjunction**, whether the conditions are merged or grouped. -/
theorem document_both (a b : Document) :
    R.document (both a b) = both (R.document a) (R.document b) := by
  unfold both
  rw [isEmpty_document, isEmpty_document, sharesField_document, sharesField_document,
    merge?_document, ← R.document_group (by decide)]
  split
  · rfl
  split
  · rfl
  split
  · rfl
  · cases merge? a b <;> rfl

theorem document_either (a b : Document) :
    R.document (either a b) = either (R.document a) (R.document b) :=
  R.document_group (by decide) a b

theorem document_complement (d : Document) :
    R.document (complement d) = complement (R.document d) := by
  rw [complement, document_single, R.key_of_isOperatorKey (by decide +kernel),
    R.value_of_group (by decide)]
  rfl

end Rewriting

end EntityQuery.Condition
