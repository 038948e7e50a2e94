import EntityQuery.Document.Value

/-!
# Entries of documents

How writing an entry changes a list of entries: one that is new comes last, one that is there
already is replaced in its place.
-/

namespace EntityQuery.Document

theorem eq_empty_of_isEmpty {d : Document} (h : d.isEmpty = true) : d = empty := by
  obtain ⟨entries⟩ := d
  have hentries : entries = [] := List.isEmpty_iff.mp h
  rw [hentries, empty]

/-- Entries under other keys are passed over. -/
theorem insertEntry_append {key : String} {before : List (String × Value)}
    (h : ∀ entry ∈ before, (key != entry.1) = true) (v : Value) (after : List (String × Value)) :
    insertEntry key v (before ++ after) = before ++ insertEntry key v after := by
  induction before with
  | nil => rfl
  | cons entry before ih =>
    obtain ⟨k, w⟩ := entry
    have hk : k ≠ key := fun he => by simpa [he] using h (k, w) List.mem_cons_self
    rw [List.cons_append, insertEntry, if_neg hk, ih fun e he => h e (List.mem_cons_of_mem _ he)]
    rfl

theorem insertEntry_of_lookup_eq_none {key : String} {entries : List (String × Value)}
    (h : entries.lookup key = none) (v : Value) :
    insertEntry key v entries = entries ++ [(key, v)] := by
  have hne := List.lookup_eq_none_iff.mp h
  simpa [insertEntry] using insertEntry_append hne v []

/-- The entries around the one that a key finds. They stay where they are when it is replaced. -/
theorem exists_append_of_lookup_eq_some {key : String} {entries : List (String × Value)}
    {w : Value} (h : entries.lookup key = some w) :
    ∃ before after, entries = before ++ (key, w) :: after ∧
      ∀ v, insertEntry key v entries = before ++ (key, v) :: after := by
  obtain ⟨before, after, rfl, hne⟩ := List.lookup_eq_some_iff.mp h
  refine ⟨before, after, rfl, fun v => ?_⟩
  rw [insertEntry_append hne, insertEntry, if_pos rfl]

/-- Among entries that are told by their distinct keys, the one under a key is replaced. -/
theorem insertEntry_map {names : List String} {key : String} (h : names.Nodup) (hkey : key ∈ names)
    (v : Value) (f : String → Value) :
    insertEntry key v (names.map fun n => (n, f n)) =
      names.map fun n => (n, if n = key then v else f n) := by
  induction names with
  | nil => cases hkey
  | cons n names ih =>
    obtain ⟨hn, hnames⟩ := List.nodup_cons.mp h
    rw [List.map_cons, insertEntry, List.map_cons]
    by_cases heq : n = key
    · -- The names are distinct, so the entries behind keep their values.
      have hrest : (names.map fun m => (m, if m = key then v else f m)) =
          names.map fun m => (m, f m) := by
        apply List.map_congr_left
        intro m hm
        have hne : m ≠ key := by
          rintro rfl
          exact hn (heq ▸ hm)
        rw [if_neg hne]
      rw [if_pos heq, if_pos heq, hrest]
    · rw [if_neg heq, if_neg heq, ih hnames ((List.mem_cons.mp hkey).resolve_left (Ne.symm heq))]

/-- Entries under new and distinct keys are written one behind the other. -/
theorem entries_foldl_insert {d : Document} {entries : List (String × Value)}
    (h : ((d.entries ++ entries).map Prod.fst).Nodup) :
    (entries.foldl (fun d (k, v) => d.insert k v) d).entries = d.entries ++ entries := by
  induction entries generalizing d with
  | nil => simp
  | cons entry entries ih =>
    obtain ⟨k, v⟩ := entry
    -- The key is new, so its entry comes last.
    have hnone : d.entries.lookup k = none := by
      apply List.lookup_eq_none_iff.mpr
      intro e he
      have hk : k ∉ d.entries.map Prod.fst := by
        rw [List.map_append, List.nodup_append] at h
        exact fun hmem => h.2.2 k hmem k (by simp) rfl
      have hne : k ≠ e.1 := fun heq => hk (List.mem_map.mpr ⟨e, he, heq.symm⟩)
      simpa using hne
    have hinsert : (d.insert k v).entries = d.entries ++ [(k, v)] :=
      insertEntry_of_lookup_eq_none hnone v
    rw [List.foldl_cons, ih, hinsert, List.append_assoc]
    · rfl
    · rwa [hinsert, List.append_assoc]

/-- Entries under distinct keys make up a document as they are. -/
theorem entries_ofEntries {entries : List (String × Value)}
    (h : (entries.map Prod.fst).Nodup) : (ofEntries entries).entries = entries :=
  entries_foldl_insert h

theorem isEmpty_insert (d : Document) (key : String) (v : Value) :
    (d.insert key v).isEmpty = false := by
  obtain ⟨entries⟩ := d
  cases entries with
  | nil => rfl
  | cons entry entries =>
    show (insertEntry key v (entry :: entries)).isEmpty = false
    rw [insertEntry]
    split <;> rfl

theorem isEmpty_foldl_insert (d : Document) (entries : List (String × Value)) :
    (entries.foldl (fun d (k, v) => d.insert k v) d).isEmpty = (d.isEmpty && entries.isEmpty) := by
  induction entries generalizing d with
  | nil => simp
  | cons entry entries ih => simp [ih, isEmpty_insert]

/-- A document is empty only if nothing was written into it. -/
theorem isEmpty_ofEntries (entries : List (String × Value)) :
    (ofEntries entries).isEmpty = entries.isEmpty :=
  isEmpty_foldl_insert empty entries

/-- An entry of a list into which an entry was written is that one, or was there before. -/
theorem mem_insertEntry {key : String} {v : Value} {entries : List (String × Value)}
    {e : String × Value} (h : e ∈ insertEntry key v entries) : e = (key, v) ∨ e ∈ entries := by
  cases hfind : entries.lookup key with
  | none =>
    rw [insertEntry_of_lookup_eq_none hfind, List.mem_append, List.mem_singleton] at h
    exact h.symm
  | some w =>
    obtain ⟨before, after, rfl, hinsert⟩ := exists_append_of_lookup_eq_some hfind
    rw [hinsert v, List.mem_append, List.mem_cons] at h
    rcases h with h | rfl | h
    · exact .inr (List.mem_append_left _ h)
    · exact .inl rfl
    · exact .inr (List.mem_append_right _ (List.mem_cons_of_mem _ h))

theorem mem_entries_foldl_insert {d : Document} {entries : List (String × Value)}
    {e : String × Value} (h : e ∈ (entries.foldl (fun d (k, v) => d.insert k v) d).entries) :
    e ∈ d.entries ∨ e ∈ entries := by
  induction entries generalizing d with
  | nil => exact .inl h
  | cons entry entries ih =>
    rcases ih h with h | h
    · rcases mem_insertEntry h with rfl | h
      · exact .inr List.mem_cons_self
      · exact .inl h
    · exact .inr (List.mem_cons_of_mem _ h)

/-- A document has no entries but those that were written into it. -/
theorem mem_of_mem_entries_ofEntries {entries : List (String × Value)} {e : String × Value}
    (h : e ∈ (ofEntries entries).entries) : e ∈ entries :=
  (mem_entries_foldl_insert h).resolve_left List.not_mem_nil

/-! ## Keys -/

theorem find?_eq_none_iff {d : Document} {key : String} : d.find? key = none ↔ key ∉ d.keys := by
  rw [find?, List.lookup_eq_none_iff, keys]
  constructor
  · intro h hmem
    obtain ⟨e, he, rfl⟩ := List.mem_map.mp hmem
    simpa using h e he
  · intro h e he
    have hne : key ≠ e.1 := fun heq => h (List.mem_map.mpr ⟨e, he, heq.symm⟩)
    simpa using hne

theorem contains_iff {d : Document} {key : String} : d.contains key = true ↔ key ∈ d.keys := by
  rw [contains, Option.isSome_iff_ne_none, ne_eq, find?_eq_none_iff, Decidable.not_not]

end EntityQuery.Document
