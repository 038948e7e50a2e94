import EntityQuery.Document.Value

/-!
# Fields of records

What a record holds at a path, and what is left of it when only some paths are kept. A path leads
through arrays to each of their items. At a path that is kept, or below one, nothing changes.
-/

namespace EntityQuery

/-! ## Values at a path -/

mutual

/-- The values that a path leads to. -/
def Value.valuesAt : List String → Value → List Value
  | [], v => [v]
  | k :: ks, .document d => d.valuesAt k ks
  | k :: ks, .array items => itemsAt (k :: ks) items
  | _ :: _, _ => []

def Document.valuesAt (k : String) (ks : List String) : Document → List Value
  | ⟨entries⟩ => entriesAt k ks entries

def entriesAt (k : String) (ks : List String) : List (String × Value) → List Value
  | [] => []
  | (key, v) :: entries => (if key = k then v.valuesAt ks else []) ++ entriesAt k ks entries

def itemsAt (path : List String) : List Value → List Value
  | [] => []
  | v :: vs => v.valuesAt path ++ itemsAt path vs

end

/-! ## Keeping paths -/

/-- The rests of the paths that start with a key. -/
def restsBelow (key : String) (paths : List (List String)) : List (List String) :=
  paths.filterMap fun
    | [] => none
    | k :: ks => if k = key then some ks else none

mutual

/-- What is left of a value when only the fields at or below the paths are kept. A value without
fields is not kept at all. -/
def Value.keep? (paths : List (List String)) : Value → Option Value
  | .document d => some (.document (d.keep paths))
  | .array items => some (.array (keepItems paths items))
  | _ => none

def Document.keep (paths : List (List String)) : Document → Document
  | ⟨entries⟩ => ⟨keepEntries paths entries⟩

def keepEntries (paths : List (List String)) : List (String × Value) → List (String × Value)
  | [] => []
  | (key, v) :: entries =>
    (if [] ∈ restsBelow key paths then [(key, v)]
      else if restsBelow key paths = [] then []
      else ((v.keep? (restsBelow key paths)).map fun w => (key, w)).toList) ++
      keepEntries paths entries

def keepItems (paths : List (List String)) : List Value → List Value
  | [] => []
  | v :: vs => (v.keep? paths).toList ++ keepItems paths vs

end

theorem mem_restsBelow {key : String} {paths : List (List String)} {ks : List String} :
    ks ∈ restsBelow key paths ↔ key :: ks ∈ paths := by
  rw [restsBelow, List.mem_filterMap]
  constructor
  · rintro ⟨path, hpath, hrest⟩
    cases path with
    | nil => cases hrest
    | cons k rest =>
      change (if k = key then some rest else none) = some ks at hrest
      by_cases hk : k = key
      · rw [if_pos hk] at hrest
        cases hrest
        rwa [← hk]
      · rw [if_neg hk] at hrest
        cases hrest
  · intro h
    exact ⟨key :: ks, h, if_pos rfl⟩

/-! ## Values at kept paths -/

/-- Some path of the list is the path or above it. -/
def Kept (paths : List (List String)) (path : List String) : Prop :=
  ∃ p ∈ paths, p <+: path

theorem Kept.restsBelow {paths : List (List String)} {k : String} {ks : List String}
    (h : Kept paths (k :: ks)) (hnil : [] ∉ paths) : Kept (restsBelow k paths) ks := by
  obtain ⟨p, hp, hprefix⟩ := h
  cases p with
  | nil => exact absurd hp hnil
  | cons key rest =>
    obtain ⟨rfl, hrest⟩ := List.cons_prefix_cons.mp hprefix
    exact ⟨rest, mem_restsBelow.mpr hp, hrest⟩

theorem Kept.ne_nil {paths : List (List String)} {path : List String} (h : Kept paths path)
    (hnil : [] ∉ paths) : path ≠ [] := by
  rintro rfl
  obtain ⟨p, hp, hprefix⟩ := h
  rw [List.prefix_nil.mp hprefix] at hp
  exact hnil hp

theorem entriesAt_append (k : String) (ks : List String) (a b : List (String × Value)) :
    entriesAt k ks (a ++ b) = entriesAt k ks a ++ entriesAt k ks b := by
  induction a with
  | nil => rfl
  | cons entry a ih =>
    rw [List.cons_append, entriesAt, ih, entriesAt, List.append_assoc]

theorem itemsAt_append (path : List String) (a b : List Value) :
    itemsAt path (a ++ b) = itemsAt path a ++ itemsAt path b := by
  induction a with
  | nil => rfl
  | cons v a ih => rw [List.cons_append, itemsAt, ih, itemsAt, List.append_assoc]

mutual

theorem Value.valuesAt_keep? {paths : List (List String)} {path : List String}
    (hkept : Kept paths path) (hnil : [] ∉ paths) (v : Value) :
    itemsAt path (v.keep? paths).toList = v.valuesAt path := by
  cases path with
  | nil => exact absurd rfl (hkept.ne_nil hnil)
  | cons k ks =>
    cases v with
    | document d =>
      rw [Value.keep?, Option.toList_some, itemsAt, itemsAt, List.append_nil, Value.valuesAt,
        Value.valuesAt]
      exact Document.valuesAt_keep hkept hnil d
    | array items =>
      rw [Value.keep?, Option.toList_some, itemsAt, itemsAt, List.append_nil, Value.valuesAt,
        Value.valuesAt]
      exact itemsAt_keepItems hkept hnil items
    | _ => rfl

theorem Document.valuesAt_keep {paths : List (List String)} {k : String} {ks : List String}
    (hkept : Kept paths (k :: ks)) (hnil : [] ∉ paths) (d : Document) :
    (d.keep paths).valuesAt k ks = d.valuesAt k ks := by
  obtain ⟨entries⟩ := d
  exact entriesAt_keepEntries hkept hnil entries

theorem entriesAt_keepEntries {paths : List (List String)} {k : String} {ks : List String}
    (hkept : Kept paths (k :: ks)) (hnil : [] ∉ paths) (entries : List (String × Value)) :
    entriesAt k ks (keepEntries paths entries) = entriesAt k ks entries := by
  cases entries with
  | nil => rfl
  | cons entry entries =>
    obtain ⟨key, v⟩ := entry
    rw [keepEntries, entriesAt_append, entriesAt_keepEntries hkept hnil entries, entriesAt]
    congr 1
    by_cases hkey : key = k
    · -- The key is on the path, so a rest of a kept path goes on from here.
      subst hkey
      have hrests : Kept (restsBelow key paths) ks := hkept.restsBelow hnil
      by_cases hend : [] ∈ restsBelow key paths
      · simp [hend, entriesAt]
      · have hne : restsBelow key paths ≠ [] := by
          obtain ⟨p, hp, -⟩ := hrests
          exact List.ne_nil_of_mem hp
        rw [if_neg hend, if_neg hne, if_pos rfl, ← Value.valuesAt_keep? hrests hend v]
        cases v.keep? (restsBelow key paths) <;> simp [entriesAt, itemsAt]
    · -- Whatever is left of another entry does not lie on the path.
      have hother : ∀ w, entriesAt k ks [(key, w)] = [] := by
        intro w
        simp [entriesAt, hkey]
      rw [if_neg hkey]
      split
      · exact hother v
      · split
        · rfl
        · cases v.keep? (restsBelow key paths) with
          | none => rfl
          | some w => exact hother w

theorem itemsAt_keepItems {paths : List (List String)} {path : List String}
    (hkept : Kept paths path) (hnil : [] ∉ paths) (items : List Value) :
    itemsAt path (keepItems paths items) = itemsAt path items := by
  cases items with
  | nil => rfl
  | cons v vs =>
    rw [keepItems, itemsAt_append, Value.valuesAt_keep? hkept hnil v,
      itemsAt_keepItems hkept hnil vs, itemsAt]

end

/-! ## Values at paths that are not kept -/

/-- No path of the list is on the line of the path. -/
def Apart (paths : List (List String)) (path : List String) : Prop :=
  ∀ p ∈ paths, ¬p <+: path ∧ ¬path <+: p

theorem Apart.restsBelow {paths : List (List String)} {k : String} {ks : List String}
    (h : Apart paths (k :: ks)) : Apart (restsBelow k paths) ks := by
  intro p hp
  have hkp := h (k :: p) (mem_restsBelow.mp hp)
  rw [List.cons_prefix_cons, List.cons_prefix_cons] at hkp
  exact ⟨fun hprefix => hkp.1 ⟨rfl, hprefix⟩, fun hprefix => hkp.2 ⟨rfl, hprefix⟩⟩

mutual

theorem Value.valuesAt_keep?_eq_nil {paths : List (List String)} {k : String} {ks : List String}
    (hapart : Apart paths (k :: ks)) (v : Value) :
    itemsAt (k :: ks) (v.keep? paths).toList = [] := by
  cases v with
  | document d =>
    rw [Value.keep?, Option.toList_some, itemsAt, itemsAt, List.append_nil, Value.valuesAt]
    exact Document.valuesAt_keep_eq_nil hapart d
  | array items =>
    rw [Value.keep?, Option.toList_some, itemsAt, itemsAt, List.append_nil, Value.valuesAt]
    exact itemsAt_keepItems_eq_nil hapart items
  | _ => rfl

theorem Document.valuesAt_keep_eq_nil {paths : List (List String)} {k : String} {ks : List String}
    (hapart : Apart paths (k :: ks)) (d : Document) : (d.keep paths).valuesAt k ks = [] := by
  obtain ⟨entries⟩ := d
  exact entriesAt_keepEntries_eq_nil hapart entries

theorem entriesAt_keepEntries_eq_nil {paths : List (List String)} {k : String}
    {ks : List String} (hapart : Apart paths (k :: ks)) (entries : List (String × Value)) :
    entriesAt k ks (keepEntries paths entries) = [] := by
  cases entries with
  | nil => rfl
  | cons entry entries =>
    obtain ⟨key, v⟩ := entry
    rw [keepEntries, entriesAt_append, entriesAt_keepEntries_eq_nil hapart entries,
      List.append_nil]
    by_cases hkey : key = k
    · -- No rest is empty, so the entry is never kept as it is.
      subst hkey
      have hrests : Apart (restsBelow key paths) ks := hapart.restsBelow
      have hend : [] ∉ restsBelow key paths := fun h => (hrests [] h).1 List.nil_prefix
      rw [if_neg hend]
      cases hpaths : restsBelow key paths with
      | nil => rfl
      | cons p ps =>
        rw [hpaths] at hrests
        -- Some path goes on from the key, so the path in question does not end there.
        cases ks with
        | nil => exact absurd List.nil_prefix (hrests p List.mem_cons_self).2
        | cons next rest =>
          have hv := Value.valuesAt_keep?_eq_nil hrests v
          rw [if_neg (List.cons_ne_nil p ps)]
          cases hw : v.keep? (p :: ps) with
          | none => rfl
          | some w =>
            rw [hw] at hv
            simpa [entriesAt, itemsAt] using hv
    · split
      · simp [entriesAt, hkey]
      · split
        · rfl
        · cases v.keep? (restsBelow key paths) <;> simp [entriesAt, hkey]

theorem itemsAt_keepItems_eq_nil {paths : List (List String)} {k : String} {ks : List String}
    (hapart : Apart paths (k :: ks)) (items : List Value) :
    itemsAt (k :: ks) (keepItems paths items) = [] := by
  cases items with
  | nil => rfl
  | cons v vs =>
    rw [keepItems, itemsAt_append, Value.valuesAt_keep?_eq_nil hapart v,
      itemsAt_keepItems_eq_nil hapart vs, List.append_nil]

end

/-! ## One path after another -/

mutual

theorem Value.valuesAt_append (p q : List String) (v : Value) :
    v.valuesAt (p ++ q) = itemsAt q (v.valuesAt p) := by
  cases p with
  | nil => rw [List.nil_append, Value.valuesAt, itemsAt, itemsAt, List.append_nil]
  | cons k ks =>
    cases v with
    | document d =>
      rw [List.cons_append, Value.valuesAt, Value.valuesAt]
      exact Document.valuesAt_append k ks q d
    | array items =>
      rw [List.cons_append, Value.valuesAt, Value.valuesAt]
      exact itemsAt_path_append (k :: ks) q items
    | _ => rfl

theorem Document.valuesAt_append (k : String) (ks q : List String) (d : Document) :
    d.valuesAt k (ks ++ q) = itemsAt q (d.valuesAt k ks) := by
  obtain ⟨entries⟩ := d
  exact entriesAt_path_append k ks q entries

theorem entriesAt_path_append (k : String) (ks q : List String)
    (entries : List (String × Value)) :
    entriesAt k (ks ++ q) entries = itemsAt q (entriesAt k ks entries) := by
  cases entries with
  | nil => rfl
  | cons entry entries =>
    obtain ⟨key, v⟩ := entry
    rw [entriesAt, entriesAt, itemsAt_append, entriesAt_path_append k ks q entries]
    by_cases hkey : key = k
    · rw [if_pos hkey, if_pos hkey, Value.valuesAt_append ks q v]
    · rw [if_neg hkey, if_neg hkey, itemsAt]

theorem itemsAt_path_append (p q : List String) (items : List Value) :
    itemsAt (p ++ q) items = itemsAt q (itemsAt p items) := by
  cases items with
  | nil => rfl
  | cons v vs =>
    rw [itemsAt, itemsAt, itemsAt_append, Value.valuesAt_append p q v, itemsAt_path_append p q vs]

end

/-! ## Records with one path -/

/-- The value that leads along the path to `v`, and nowhere else. -/
def Value.along : List String → Value → Value
  | [], v => v
  | k :: ks, v => .document (.single k (Value.along ks v))

theorem Value.valuesAt_along_append (p q : List String) (v : Value) :
    (Value.along (p ++ q) v).valuesAt p = [Value.along q v] := by
  induction p with
  | nil => rw [List.nil_append, Value.valuesAt]
  | cons k ks ih =>
    rw [List.cons_append, Value.along, Value.valuesAt, Document.single, Document.valuesAt,
      entriesAt, if_pos rfl, ih, entriesAt, List.append_nil]

theorem Value.valuesAt_along_self (path : List String) (v : Value) :
    (Value.along path v).valuesAt path = [v] := by
  have h := Value.valuesAt_along_append path [] v
  rwa [List.append_nil] at h

/-- Only the paths down to its end lead to something. -/
theorem Value.valuesAt_along_eq_nil {path q : List String} (h : ¬q <+: path) (i : Int64) :
    (Value.along path (.int i)).valuesAt q = [] := by
  induction path generalizing q with
  | nil =>
    cases q with
    | nil => exact absurd (List.prefix_refl []) h
    | cons => rfl
  | cons k ks ih =>
    cases q with
    | nil => exact absurd List.nil_prefix h
    | cons l ls =>
      rw [Value.along, Value.valuesAt, Document.single, Document.valuesAt, entriesAt, entriesAt,
        List.append_nil]
      by_cases hkl : k = l
      · rw [if_pos hkl]
        apply ih
        intro hprefix
        exact h (List.cons_prefix_cons.mpr ⟨hkl.symm, hprefix⟩)
      · rw [if_neg hkl]

end EntityQuery
