import EntityQuery.Proofs.Condition.Normal
import EntityQuery.Proofs.Condition.Shape

/-!
# Modifiers of patterns

Whether case is ignored is told by a modifier beside each pattern. A modifier takes part in the test
whether two sets of operators on a field can be put together, but it never decides it, since where
two modifiers meet two patterns meet as well. So the conditions that an expression has with and
without regard to case are put together in the same way, and differ in their modifiers only.
-/

namespace EntityQuery

/-- The entries without a modifier, if there is a pattern among them. -/
def dropModifier (entries : List (String × Value)) : List (String × Value) :=
  if "$regex" ∈ entries.map Prod.fst then entries.filter fun e => e.1 != "$options" else entries

mutual

/-- The value with no modifier beside a pattern, at any depth. -/
def Value.withoutModifiers : Value → Value
  | .array items => .array (itemsWithoutModifiers items)
  | .document d => .document d.withoutModifiers
  | v => v

def Document.withoutModifiers : Document → Document
  | ⟨entries⟩ => ⟨dropModifier (entriesWithoutModifiers entries)⟩

def entriesWithoutModifiers : List (String × Value) → List (String × Value)
  | [] => []
  | (k, v) :: entries => (k, v.withoutModifiers) :: entriesWithoutModifiers entries

def itemsWithoutModifiers : List Value → List Value
  | [] => []
  | v :: vs => v.withoutModifiers :: itemsWithoutModifiers vs

end

mutual

/-- All documents that a value holds, at any depth. -/
def Value.documents : Value → List Document
  | .array items => itemsDocuments items
  | .document d => d.documents
  | _ => []

def Document.documents : Document → List Document
  | ⟨entries⟩ => ⟨entries⟩ :: entriesDocuments entries

def entriesDocuments : List (String × Value) → List Document
  | [] => []
  | (_, v) :: entries => v.documents ++ entriesDocuments entries

def itemsDocuments : List Value → List Document
  | [] => []
  | v :: vs => v.documents ++ itemsDocuments vs

end

/-- There is a modifier beside a pattern exactly if case is ignored, and none without a pattern. -/
def Document.IsModified (o : Options) (d : Document) : Prop :=
  d.find? "$options" =
    if "$regex" ∈ d.keys ∧ o.ignoreCase = true then some (.string "i") else none

namespace Condition

variable {o : Options} {a b d m : Document}

/-- So it is in all documents of the condition. -/
def IsModified (o : Options) (d : Document) : Prop :=
  ∀ m ∈ d.documents, m.IsModified o

/-! ## Entries and members -/

theorem entriesWithoutModifiers_eq_map (entries : List (String × Value)) :
    entriesWithoutModifiers entries = entries.map fun e => (e.1, e.2.withoutModifiers) := by
  induction entries with
  | nil => rfl
  | cons e entries ih => rw [entriesWithoutModifiers, ih, List.map_cons]

theorem itemsWithoutModifiers_eq_map (items : List Value) :
    itemsWithoutModifiers items = items.map Value.withoutModifiers := by
  induction items with
  | nil => rfl
  | cons v items ih => rw [itemsWithoutModifiers, ih, List.map_cons]

/-- Without a pattern nothing is left out among the entries themselves. -/
theorem entries_withoutModifiers (d : Document) :
    d.withoutModifiers.entries =
      if "$regex" ∈ d.keys then
        (d.entries.map fun e => (e.1, e.2.withoutModifiers)).filter fun e => e.1 != "$options"
      else d.entries.map fun e => (e.1, e.2.withoutModifiers) := by
  obtain ⟨entries⟩ := d
  have hkeys : (entries.map fun e => (e.1, e.2.withoutModifiers)).map Prod.fst =
      Document.keys ⟨entries⟩ := by
    rw [List.map_map]
    rfl
  rw [Document.withoutModifiers, entriesWithoutModifiers_eq_map, dropModifier, hkeys]

theorem keys_withoutModifiers (d : Document) :
    d.withoutModifiers.keys =
      if "$regex" ∈ d.keys then d.keys.filter (· != "$options") else d.keys := by
  rw [Document.keys, entries_withoutModifiers]
  split
  · rw [Document.keys, List.filter_map, List.filter_map, List.map_map]
    rfl
  · rw [List.map_map]
    rfl

theorem mem_keys_withoutModifiers {k : String} (hk : k ≠ "$options") :
    k ∈ d.withoutModifiers.keys ↔ k ∈ d.keys := by
  rw [keys_withoutModifiers]
  split
  · rw [List.mem_filter, bne_iff_ne]
    exact and_iff_left hk
  · rfl

theorem entriesDocuments_eq (entries : List (String × Value)) :
    entriesDocuments entries = entries.flatMap fun e => e.2.documents := by
  induction entries with
  | nil => rfl
  | cons e entries ih => rw [entriesDocuments, ih, List.flatMap_cons]

theorem itemsDocuments_eq (items : List Value) :
    itemsDocuments items = items.flatMap Value.documents := by
  induction items with
  | nil => rfl
  | cons v items ih => rw [itemsDocuments, ih, List.flatMap_cons]

/-- The documents of a condition are the condition and those of what its entries say. -/
theorem mem_documents {d m : Document} :
    m ∈ d.documents ↔ m = d ∨ ∃ e ∈ d.entries, m ∈ e.2.documents := by
  obtain ⟨entries⟩ := d
  rw [Document.documents, entriesDocuments_eq, List.mem_cons, List.mem_flatMap]

/-! ## Conditions in normal form -/

theorem IsNormalEntry.key_ne {key : String} {v : Value} (h : IsNormalEntry o key v) :
    key ≠ "$regex" ∧ key ≠ "$options" := by
  cases h with
  | group hoperator => rcases hoperator with rfl | rfl <;> decide
  | complement => decide
  | never => decide
  | fields => decide
  | field hname =>
    -- No path starts with the dollar sign of an operator.
    refine ⟨?_, ?_⟩
    · rintro rfl
      exact absurd hname (by decide +kernel)
    · rintro rfl
      exact absurd hname (by decide +kernel)

/-- Patterns and modifiers stand on fields only. -/
theorem IsNormal.not_mem_keys (h : IsNormal o d) : "$regex" ∉ d.keys ∧ "$options" ∉ d.keys := by
  have hne (key : String) (hkey : key ∈ d.keys) : key ≠ "$regex" ∧ key ≠ "$options" := by
    obtain ⟨e, he, rfl⟩ := List.mem_map.mp hkey
    exact (h.entry he).key_ne
  exact ⟨fun hmem => (hne _ hmem).1 rfl, fun hmem => (hne _ hmem).2 rfl⟩

theorem IsNormalEntry.exists_operators {key : String} {v : Value} (h : IsNormalEntry o key v)
    (hkey : isOperatorKey key = false) : ∃ m, v = .document m ∧ IsOperatorSet o m := by
  cases h with
  | group hoperator => rcases hoperator with rfl | rfl <;> exact absurd hkey (by decide +kernel)
  | complement => exact absurd hkey (by decide +kernel)
  | never => exact absurd hkey (by decide +kernel)
  | fields => exact absurd hkey (by decide +kernel)
  | field _ hm => exact ⟨_, rfl, hm⟩

theorem entries_of_not_mem (h : "$regex" ∉ d.keys) :
    d.withoutModifiers.entries = d.entries.map fun e => (e.1, e.2.withoutModifiers) := by
  rw [entries_withoutModifiers, if_neg h]

theorem withoutModifiers_eq_self (h : "$regex" ∉ d.keys)
    (hself : ∀ e ∈ d.entries, e.2.withoutModifiers = e.2) : d.withoutModifiers = d := by
  have hentries : d.withoutModifiers.entries = d.entries := by
    rw [entries_of_not_mem h]
    exact (List.map_congr_left fun e he => by rw [hself e he]; rfl).trans (List.map_id _)
  obtain ⟨entries⟩ := d
  exact congrArg Document.mk hentries

theorem withoutModifiers_single {key : String} (h : key ≠ "$regex") (v : Value) :
    (Document.single key v).withoutModifiers = .single key v.withoutModifiers := by
  have hkeys : "$regex" ∉ (Document.single key v).keys := by
    simpa [Document.keys, Document.single] using h.symm
  exact congrArg Document.mk (entries_of_not_mem hkeys)

theorem isEmpty_withoutModifiers (h : "$regex" ∉ d.keys) :
    d.withoutModifiers.isEmpty = d.isEmpty := by
  rw [Document.isEmpty, entries_of_not_mem h, List.isEmpty_map, Document.isEmpty]

theorem find?_withoutModifiers (h : "$regex" ∉ d.keys) (k : String) :
    d.withoutModifiers.find? k = (d.find? k).map Value.withoutModifiers := by
  rw [Document.find?, entries_of_not_mem h, Document.find?]
  induction d.entries with
  | nil => rfl
  | cons e entries ih =>
    rw [List.map_cons, List.lookup_cons, List.lookup_cons, ih]
    cases k == e.1 <;> rfl

theorem mem_keys_insert {k l : String} {v : Value} (h : l ∈ (d.insert k v).keys) :
    l = k ∨ l ∈ d.keys := by
  obtain ⟨entries⟩ := d
  unfold Document.insert Document.keys at *
  induction entries with
  | nil => exact .inl (List.mem_singleton.mp h)
  | cons e entries ih =>
    rw [Document.insertEntry] at h
    split at h
    · exact .inr h
    · rcases List.mem_cons.mp h with rfl | h
      · exact .inr List.mem_cons_self
      · exact (ih h).imp_right (List.mem_cons_of_mem _)

theorem withoutModifiers_insert (h : "$regex" ∉ d.keys) {k : String} (hk : k ≠ "$regex")
    (v : Value) :
    (d.insert k v).withoutModifiers = d.withoutModifiers.insert k v.withoutModifiers := by
  have hinsert : "$regex" ∉ (d.insert k v).keys := fun hmem =>
    (mem_keys_insert hmem).elim (fun he => hk he.symm) h
  have hentries : (d.insert k v).withoutModifiers.entries =
      Document.insertEntry k v.withoutModifiers d.withoutModifiers.entries := by
    rw [entries_of_not_mem hinsert, entries_of_not_mem h, Document.insert]
    induction d.entries with
    | nil => rfl
    | cons e entries ih =>
      rw [Document.insertEntry, List.map_cons, Document.insertEntry]
      split
      · rw [List.map_cons]
      · rw [List.map_cons, ih]
  exact congrArg Document.mk hentries

/-! ## Operators on a field -/

theorem isOperatorKey_of_isOperand {key : String} {v : Value} (h : IsOperand key v) :
    isOperatorKey key = true := by
  cases h with
  | comparison c => exact isOperatorKey_key c
  | membership => decide +kernel
  | pattern => decide +kernel
  | modifier => decide +kernel

theorem IsOperatorSet.isOperatorKey (h : IsOperatorSet o m) {key : String} (hkey : key ∈ m.keys) :
    isOperatorKey key = true := by
  obtain ⟨⟨k, v⟩, he, rfl⟩ := List.mem_map.mp hkey
  exact isOperatorKey_of_isOperand (h.isOperand k v he)

theorem IsOperatorSet.isOperators (h : IsOperatorSet o m) : m.isOperators = true := by
  rw [Document.isOperators, h.isEmpty_eq]
  simpa using fun _ hkey => h.isOperatorKey hkey

/-- Without a pattern there is no modifier, so every modifier is left out. -/
theorem IsOperatorSet.mem_keys_withoutModifiers (h : IsOperatorSet o m) {k : String} :
    k ∈ m.withoutModifiers.keys ↔ k ∈ m.keys ∧ k ≠ "$options" := by
  rw [keys_withoutModifiers]
  split
  · rw [List.mem_filter, bne_iff_ne]
  · rename_i hregex
    have hne (hk : k ∈ m.keys) : k ≠ "$options" := by
      rintro rfl
      exact hregex (h.modifier_iff.mp hk).1
    exact ⟨fun hk => ⟨hk, hne hk⟩, And.left⟩

theorem IsOperatorSet.entries_withoutModifiers (h : IsOperatorSet o m) :
    m.withoutModifiers.entries =
      (m.entries.map fun e => (e.1, e.2.withoutModifiers)).filter fun e => e.1 != "$options" := by
  rw [Condition.entries_withoutModifiers]
  split
  · rfl
  · rename_i hregex
    rw [eq_comm, List.filter_eq_self]
    intro e he
    obtain ⟨e', he', rfl⟩ := List.mem_map.mp he
    rw [bne_iff_ne]
    rintro heq
    exact hregex (h.modifier_iff.mp (heq ▸ List.mem_map.mpr ⟨e', he', rfl⟩)).1

/-- Some operator is left: a modifier stands beside a pattern. -/
theorem IsOperatorSet.isOperators_withoutModifiers (h : IsOperatorSet o m) :
    m.withoutModifiers.isOperators = true := by
  have hleft : ∃ k, k ∈ m.withoutModifiers.keys := by
    have hne : m.keys ≠ [] := by
      simpa [Document.keys, Document.isEmpty] using h.isEmpty_eq
    obtain ⟨k, hk⟩ := List.exists_mem_of_ne_nil _ hne
    by_cases hoptions : k = "$options"
    · subst hoptions
      exact ⟨"$regex", h.mem_keys_withoutModifiers.mpr ⟨(h.modifier_iff.mp hk).1, by decide⟩⟩
    · exact ⟨k, h.mem_keys_withoutModifiers.mpr ⟨hk, hoptions⟩⟩
  obtain ⟨k, hk⟩ := hleft
  have hempty : m.withoutModifiers.isEmpty = false := by
    obtain ⟨e, he, -⟩ := List.mem_map.mp hk
    simpa [Document.isEmpty] using List.ne_nil_of_mem he
  rw [Document.isOperators, hempty]
  simpa using fun k hk => h.isOperatorKey (h.mem_keys_withoutModifiers.mp hk).1

/-- Where two modifiers meet, two patterns meet as well. -/
theorem disjointOperators_withoutModifiers (ha : IsOperatorSet o a) (hb : IsOperatorSet o b) :
    DisjointOperators a.withoutModifiers b.withoutModifiers ↔ DisjointOperators a b := by
  have hiff {x y : Document} : DisjointOperators x y ↔ ∀ k ∈ y.keys, k ∉ x.keys := by
    simp [DisjointOperators, ← Document.contains_iff]
  rw [hiff, hiff]
  constructor
  · intro h k hkb hka
    by_cases hoptions : k = "$options"
    · subst hoptions
      exact h "$regex" (hb.mem_keys_withoutModifiers.mpr ⟨(hb.modifier_iff.mp hkb).1, by decide⟩)
        (ha.mem_keys_withoutModifiers.mpr ⟨(ha.modifier_iff.mp hka).1, by decide⟩)
    · exact h k (hb.mem_keys_withoutModifiers.mpr ⟨hkb, hoptions⟩)
        (ha.mem_keys_withoutModifiers.mpr ⟨hka, hoptions⟩)
  · intro h k hkb hka
    exact h k (hb.mem_keys_withoutModifiers.mp hkb).1 (ha.mem_keys_withoutModifiers.mp hka).1

theorem mergeOperators?_withoutModifiers (ha : IsOperatorSet o a) (hb : IsOperatorSet o b) :
    mergeOperators? a.withoutModifiers b.withoutModifiers =
      (mergeOperators? a b).map Document.withoutModifiers := by
  have hdisj : b.withoutModifiers.keys.any a.withoutModifiers.contains = b.keys.any a.contains := by
    have h := disjointOperators_withoutModifiers ha hb
    unfold DisjointOperators at h
    rw [Bool.eq_iff_iff, ← not_iff_not, Bool.not_eq_true, Bool.not_eq_true, h]
  rw [mergeOperators?, mergeOperators?, ha.isOperators, hb.isOperators,
    ha.isOperators_withoutModifiers, hb.isOperators_withoutModifiers, hdisj]
  cases hany : b.keys.any a.contains with
  | true => rfl
  | false =>
    have happend := (ha.append hb hany).entries_withoutModifiers
    rw [List.map_append, List.filter_append, ← ha.entries_withoutModifiers,
      ← hb.entries_withoutModifiers] at happend
    exact congrArg some (congrArg Document.mk happend.symm)

/-! ## Combinations -/

theorem mergeEntry?_withoutModifiers {k : String} {v : Value} (hd : IsNormal o d)
    (hv : IsNormalEntry o k v) :
    mergeEntry? d.withoutModifiers (k, v.withoutModifiers) =
      Option.map Document.withoutModifiers ( mergeEntry? d (k, v)) := by
  have hregex : "$regex" ∉ d.keys := hd.not_mem_keys.1
  unfold mergeEntry?
  dsimp only
  rw [find?_withoutModifiers hregex]
  cases hf : d.find? k with
  | none => exact congrArg some (withoutModifiers_insert hregex hv.key_ne.1 v).symm
  | some existing =>
    rw [Option.map_some]
    cases hk : isOperatorKey k with
    | true => rfl
    | false =>
      -- Operators on a field are all that can be put together.
      have hmem : (k, existing) ∈ d.entries := by
        obtain ⟨before, after, h, -⟩ := Document.exists_append_of_lookup_eq_some hf
        rw [h]
        exact List.mem_append_right _ List.mem_cons_self
      obtain ⟨a, rfl, ha⟩ := (hd.entry hmem).exists_operators hk
      obtain ⟨b, rfl, hb⟩ := hv.exists_operators hk
      simp only [Value.withoutModifiers, mergeOperators?_withoutModifiers ha hb, Bool.false_eq_true,
        if_false]
      cases mergeOperators? a b with
      | none => rfl
      | some m =>
        exact congrArg some (withoutModifiers_insert hregex hv.key_ne.1 (.document m)).symm

theorem merge?_withoutModifiers (ha : IsNormal o a) (hb : IsNormal o b) :
    merge? a.withoutModifiers b.withoutModifiers =
      (merge? a b).map Document.withoutModifiers := by
  rw [merge?, entries_of_not_mem hb.not_mem_keys.1, merge?]
  have hentries : ∀ k v, (k, v) ∈ b.entries → IsNormalEntry o k v := fun _ _ h => hb.entry h
  generalize b.entries = entries at hentries
  induction entries generalizing a with
  | nil => rfl
  | cons e entries ih =>
    obtain ⟨k, v⟩ := e
    have hv := hentries k v List.mem_cons_self
    rw [List.map_cons, List.foldlM_cons, List.foldlM_cons, mergeEntry?_withoutModifiers ha hv]
    cases hm : mergeEntry? a (k, v) with
    | none => rfl
    | some d =>
      have hd : IsNormal o d := ha.mergeEntry? hv hm
      exact ih hd fun k v h => hentries k v (List.mem_cons_of_mem _ h)

/-! ## Groups -/

theorem groupItems?_withoutModifiers (h : "$regex" ∉ d.keys) (operator : String) :
    groupItems? operator d.withoutModifiers =
      (groupItems? operator d).map (List.map Value.withoutModifiers) := by
  refine groupItems?_eq_map id (fun _ => Value.withoutModifiers) (entries_of_not_mem h)
    (fun _ _ => Iff.rfl) ?_ ?_
  · intro items
    rw [Value.withoutModifiers, itemsWithoutModifiers_eq_map]
  · intro v items hv
    cases v with
    | array items' => exact ⟨items', rfl⟩
    | _ => cases hv

theorem members_withoutModifiers (h : "$regex" ∉ d.keys) (operator : String) :
    members operator d.withoutModifiers = (members operator d).map Value.withoutModifiers := by
  rw [members_eq, members_eq, groupItems?_withoutModifiers h]
  cases groupItems? operator d <;> rfl

theorem withoutModifiers_group {operator : String} (hoperator : operator ≠ "$regex")
    (ha : "$regex" ∉ a.keys) (hb : "$regex" ∉ b.keys) :
    (group operator a b).withoutModifiers =
      group operator a.withoutModifiers b.withoutModifiers := by
  rw [group, withoutModifiers_single hoperator, Value.withoutModifiers,
    itemsWithoutModifiers_eq_map, List.map_append, ← members_withoutModifiers ha,
    ← members_withoutModifiers hb, group]

theorem itemShares_withoutModifiers (b : Document) (item : Value) :
    itemShares b.withoutModifiers item.withoutModifiers = itemShares b item := by
  cases item with
  | document m =>
    -- A modifier is an operator, and operators are not looked at here.
    have hfield {k : String} (hk : isOperatorKey k = false) : k ≠ "$options" := by
      rintro rfl
      exact absurd hk (by decide +kernel)
    rw [Value.withoutModifiers, itemShares, itemShares, Bool.eq_iff_iff]
    simp only [List.any_eq_true, Bool.and_eq_true, Bool.not_eq_true', Document.contains_iff]
    constructor
    · rintro ⟨k, hkm, hk, hkb⟩
      exact ⟨k, (mem_keys_withoutModifiers (hfield hk)).mp hkm, hk,
        (mem_keys_withoutModifiers (hfield hk)).mp hkb⟩
    · rintro ⟨k, hkm, hk, hkb⟩
      exact ⟨k, (mem_keys_withoutModifiers (hfield hk)).mpr hkm, hk,
        (mem_keys_withoutModifiers (hfield hk)).mpr hkb⟩
  | _ => rfl

theorem sharesField_withoutModifiers (ha : "$regex" ∉ a.keys) (b : Document) :
    sharesField a.withoutModifiers b.withoutModifiers = sharesField a b := by
  have hitems : itemShares b.withoutModifiers ∘ Value.withoutModifiers = itemShares b :=
    funext (itemShares_withoutModifiers b)
  rw [sharesField_eq, sharesField_eq, groupItems?_withoutModifiers ha]
  cases groupItems? "$and" a with
  | none => rfl
  | some items => simp [List.any_map, hitems]

/-! ## Connectives -/

/-- **Modifiers have no part in how two conditions are put together.** -/
theorem withoutModifiers_both (ha : IsNormal o a) (hb : IsNormal o b) :
    (both a b).withoutModifiers = both a.withoutModifiers b.withoutModifiers := by
  have hra : "$regex" ∉ a.keys := ha.not_mem_keys.1
  have hrb : "$regex" ∉ b.keys := hb.not_mem_keys.1
  unfold both
  rw [isEmpty_withoutModifiers hra, isEmpty_withoutModifiers hrb,
    sharesField_withoutModifiers hra, sharesField_withoutModifiers hrb,
    merge?_withoutModifiers ha hb, ← withoutModifiers_group (by decide) hra hrb]
  split
  · rfl
  split
  · rfl
  split
  · rfl
  · cases merge? a b <;> rfl

theorem withoutModifiers_either (ha : IsNormal o a) (hb : IsNormal o b) :
    (either a b).withoutModifiers = either a.withoutModifiers b.withoutModifiers :=
  withoutModifiers_group (by decide) ha.not_mem_keys.1 hb.not_mem_keys.1

theorem withoutModifiers_complement (d : Document) :
    (complement d).withoutModifiers = complement d.withoutModifiers :=
  withoutModifiers_single (by decide) _

end Condition

end EntityQuery
