import Mathlib.Data.List.Basic
import EntityQuery.Proofs.Condition.Merge
import EntityQuery.Proofs.Plan.AddNew

/-!
# Requirements gathered by field

A condition that has nothing but operators on fields is a list of requirements, each on one field.
Requirements that come one after the other are gathered under their fields: the fields in the order
in which they come first, and on each field its operators in their order. Main statement: if no two
requirements have a field and an operator in common, then gathering is what combining two
conditions does, so nothing is grouped.
-/

namespace EntityQuery.Condition

/-- Operators on one field. -/
structure Requirement where
  name : String
  operators : Document

namespace Requirement

/-- The requirement as an entry of a condition. -/
def entry (r : Requirement) : String × Value :=
  (r.name, .document r.operators)

/-- There is a field and there are operators on it, none of which names a group. -/
structure IsPlain (r : Requirement) : Prop where
  isField : isOperatorKey r.name = false
  isOperators : r.operators.isOperators = true
  no_group : ∀ key ∈ r.operators.keys, isGroupKey key = false

/-- On one field the two have no operator in common. -/
def Apart (r s : Requirement) : Prop :=
  r.name = s.name → ∀ key ∈ r.operators.keys, key ∉ s.operators.keys

instance (r s : Requirement) : Decidable (r.Apart s) :=
  inferInstanceAs (Decidable (_ → _))

end Requirement

/-- The requirements that a document has on fields, in their order. -/
def requirements (d : Document) : List Requirement :=
  d.entries.filterMap fun (name, v) => v.document?.map (Requirement.mk name)

/-- Requirements that can stand together: no two of them are in each other's way. -/
structure Compatible (rs : List Requirement) : Prop where
  plain : ∀ r ∈ rs, r.IsPlain
  apart : rs.Pairwise Requirement.Apart

theorem Compatible.left {rs ss : List Requirement} (h : Compatible (rs ++ ss)) : Compatible rs :=
  ⟨fun r hr => h.plain r (List.mem_append_left _ hr), (List.pairwise_append.mp h.apart).1⟩

theorem Compatible.right {rs ss : List Requirement} (h : Compatible (rs ++ ss)) : Compatible ss :=
  ⟨fun r hr => h.plain r (List.mem_append_right _ hr), (List.pairwise_append.mp h.apart).2.1⟩

/-! ## Gathering -/

/-- The operators on a field, in the order of the requirements. -/
def operatorsOn (name : String) (rs : List Requirement) : List (String × Value) :=
  rs.flatMap fun r => if r.name = name then r.operators.entries else []

/-- One requirement for each field, where the field comes first. -/
def regrouped (rs : List Requirement) : List Requirement :=
  (rs.map Requirement.name).eraseDups.map fun name => ⟨name, ⟨operatorsOn name rs⟩⟩

/-- The condition with one entry for each field. -/
def gather (rs : List Requirement) : Document :=
  ⟨(regrouped rs).map Requirement.entry⟩

variable {r : Requirement} {rs ss : List Requirement} {name : String}

theorem operatorsOn_append (name : String) (rs ss : List Requirement) :
    operatorsOn name (rs ++ ss) = operatorsOn name rs ++ operatorsOn name ss :=
  List.flatMap_append

theorem operatorsOn_singleton (name : String) (r : Requirement) :
    operatorsOn name [r] = if r.name = name then r.operators.entries else [] := by
  simp [operatorsOn]

theorem operatorsOn_eq_nil (h : name ∉ rs.map Requirement.name) : operatorsOn name rs = [] := by
  refine List.flatMap_eq_nil_iff.mpr fun r hr => if_neg ?_
  rintro rfl
  exact h (List.mem_map_of_mem hr)

theorem mem_keys_operatorsOn {key : String} :
    key ∈ Document.keys ⟨operatorsOn name rs⟩ ↔
      ∃ r ∈ rs, r.name = name ∧ key ∈ r.operators.keys := by
  have hkeys : Document.keys ⟨operatorsOn name rs⟩ =
      rs.flatMap fun r => if r.name = name then r.operators.keys else [] := by
    rw [Document.keys, operatorsOn, List.map_flatMap]
    congr 1
    funext r
    split <;> rfl
  rw [hkeys, List.mem_flatMap]
  constructor
  · rintro ⟨r, hr, hkey⟩
    split at hkey
    · exact ⟨r, hr, ‹_›, hkey⟩
    · cases hkey
  · rintro ⟨r, hr, hname, hkey⟩
    exact ⟨r, hr, by rwa [if_pos hname]⟩

/-- The operators on a required field are plain as well. -/
theorem isPlain_operatorsOn (h : ∀ r ∈ rs, r.IsPlain) (hname : name ∈ rs.map Requirement.name) :
    Requirement.IsPlain ⟨name, ⟨operatorsOn name rs⟩⟩ := by
  obtain ⟨r, hr, rfl⟩ := List.mem_map.mp hname
  refine ⟨(h r hr).isField, ?_, ?_⟩
  · have hops := (h r hr).isOperators
    simp only [Document.isOperators, Bool.and_eq_true, Bool.not_eq_true'] at hops ⊢
    constructor
    · -- The field has the operators of `r` at least.
      obtain ⟨key, hkey⟩ : ∃ key, key ∈ r.operators.keys := by
        apply List.exists_mem_of_ne_nil
        simpa [Document.isEmpty, Document.keys] using hops.1
      have hmem := mem_keys_operatorsOn.mpr ⟨r, hr, rfl, hkey⟩
      apply List.isEmpty_eq_false_iff.mpr
      rintro (hnil : operatorsOn r.name rs = [])
      simp [Document.keys, hnil] at hmem
    · rw [List.all_eq_true]
      intro key hkey
      obtain ⟨s, hs, -, hkey⟩ := mem_keys_operatorsOn.mp hkey
      have hall := (h s hs).isOperators
      simp only [Document.isOperators, Bool.and_eq_true] at hall
      exact List.all_eq_true.mp hall.2 key hkey
  · intro key hkey
    obtain ⟨s, hs, -, hkey⟩ := mem_keys_operatorsOn.mp hkey
    exact (h s hs).no_group key hkey

/-! ## Requirements that are gathered twice -/

theorem names_regrouped (rs : List Requirement) :
    (regrouped rs).map Requirement.name = (rs.map Requirement.name).eraseDups := by
  rw [regrouped, List.map_map]
  exact List.map_id _

theorem keys_gather (rs : List Requirement) :
    (gather rs).keys = (rs.map Requirement.name).eraseDups := by
  rw [← names_regrouped, Document.keys, gather, List.map_map]
  rfl

/-- Among requirements on distinct fields the one on a field has all its operators. -/
theorem operatorsOn_map {names : List String} (h : names.Nodup)
    (f : String → List (String × Value)) :
    operatorsOn name (names.map fun n => ⟨n, ⟨f n⟩⟩) = if name ∈ names then f name else [] := by
  induction names with
  | nil => rfl
  | cons n names ih =>
    obtain ⟨hn, hnames⟩ := List.nodup_cons.mp h
    rw [List.map_cons, ← List.singleton_append, operatorsOn_append, operatorsOn_singleton,
      ih hnames]
    by_cases hname : n = name
    · rw [← hname]
      simp [hn]
    · simp [hname, Ne.symm hname]

theorem operatorsOn_regrouped (name : String) (rs : List Requirement) :
    operatorsOn name (regrouped rs) = operatorsOn name rs := by
  rw [regrouped, operatorsOn_map (nodup_eraseDups _)]
  split
  · rfl
  · rename_i hname
    rw [List.mem_eraseDups] at hname
    rw [operatorsOn_eq_nil hname]

/-- Gathering part of the requirements beforehand changes nothing. -/
theorem gather_append_regrouped (rs ss : List Requirement) :
    gather (rs ++ regrouped ss) = gather (rs ++ ss) := by
  have hnames : ((rs ++ regrouped ss).map Requirement.name).eraseDups =
      ((rs ++ ss).map Requirement.name).eraseDups := by
    rw [List.map_append, names_regrouped, eraseDups_append_eraseDups, ← List.map_append]
  have hoperators (name : String) :
      operatorsOn name (rs ++ regrouped ss) = operatorsOn name (rs ++ ss) := by
    rw [operatorsOn_append, operatorsOn_regrouped, ← operatorsOn_append]
  rw [gather, regrouped, hnames]
  simp only [hoperators]
  rfl

theorem Compatible.append_regrouped (h : Compatible (rs ++ ss)) :
    Compatible (rs ++ regrouped ss) := by
  obtain ⟨hplain, hapart⟩ := h
  rw [List.forall_mem_append] at hplain
  rw [List.pairwise_append] at hapart
  constructor
  · rw [List.forall_mem_append]
    refine ⟨hplain.1, ?_⟩
    intro s hs
    obtain ⟨name, hname, rfl⟩ := List.mem_map.mp hs
    exact isPlain_operatorsOn hplain.2 (List.mem_eraseDups.mp hname)
  · rw [List.pairwise_append]
    refine ⟨hapart.1, ?_, ?_⟩
    · -- There is one requirement for each field now.
      rw [regrouped, List.pairwise_map]
      exact (nodup_eraseDups _).imp fun hne heq => absurd heq hne
    · intro r hr s hs hname key hkey hkey'
      obtain ⟨name, -, rfl⟩ := List.mem_map.mp hs
      obtain ⟨s, hs, hs', hkey'⟩ := mem_keys_operatorsOn.mp hkey'
      exact hapart.2.2 r hr s hs (hname.trans hs'.symm) key hkey hkey'

/-! ## Merging -/

theorem entries_gather (rs : List Requirement) :
    (gather rs).entries = (rs.map Requirement.name).eraseDups.map fun name =>
      (name, .document ⟨operatorsOn name rs⟩) := by
  rw [gather, regrouped, List.map_map]
  rfl

theorem find?_gather (hname : name ∈ rs.map Requirement.name) :
    (gather rs).find? name = some (.document ⟨operatorsOn name rs⟩) := by
  rw [Document.find?, entries_gather]
  exact List.lookup_graph (fun n => Value.document ⟨operatorsOn n rs⟩)
    (List.mem_eraseDups.mpr hname)

/-- On all other fields a further requirement adds nothing. -/
theorem operatorsOn_concat_of_ne (h : name ≠ r.name) :
    operatorsOn name (rs ++ [r]) = operatorsOn name rs := by
  rw [operatorsOn_append, operatorsOn_singleton, if_neg h.symm, List.append_nil]

theorem operatorsOn_concat_self (rs : List Requirement) (r : Requirement) :
    operatorsOn r.name (rs ++ [r]) = operatorsOn r.name rs ++ r.operators.entries := by
  rw [operatorsOn_append, operatorsOn_singleton, if_pos rfl]

theorem entries_gather_concat (rs : List Requirement) (r : Requirement) :
    (gather (rs ++ [r])).entries = (addNew (rs.map Requirement.name).eraseDups r.name).map
      fun name => (name, .document ⟨operatorsOn name (rs ++ [r])⟩) := by
  rw [entries_gather, List.map_append, List.map_singleton, eraseDups_concat]

/-- On a field that is there already, the operators are replaced in their place. -/
theorem insert_gather_of_mem (hname : r.name ∈ rs.map Requirement.name) :
    (gather rs).insert r.name (.document ⟨operatorsOn r.name (rs ++ [r])⟩) =
      gather (rs ++ [r]) := by
  have hmem : r.name ∈ (rs.map Requirement.name).eraseDups := List.mem_eraseDups.mpr hname
  have hentries : Document.insertEntry r.name (.document ⟨operatorsOn r.name (rs ++ [r])⟩)
      (gather rs).entries = (gather (rs ++ [r])).entries := by
    rw [entries_gather_concat, addNew, if_pos hmem, entries_gather,
      Document.insertEntry_map (nodup_eraseDups _) hmem]
    apply List.map_congr_left
    intro name _
    by_cases hne : name = r.name
    · rw [if_pos hne, hne]
    · rw [if_neg hne, operatorsOn_concat_of_ne hne]
  rw [Document.insert, hentries]
  rfl

/-- A new field comes last, with the operators that are required of it. -/
theorem insert_gather_of_not_mem (hname : r.name ∉ rs.map Requirement.name) :
    (gather rs).insert r.name (.document r.operators) = gather (rs ++ [r]) := by
  have hmem : r.name ∉ (rs.map Requirement.name).eraseDups := by
    rwa [List.mem_eraseDups]
  have hnone : (gather rs).entries.lookup r.name = none :=
    Document.find?_eq_none_iff.mpr (by rwa [keys_gather])
  -- The name is new: what stands there already is as it was, and the entry comes last.
  have hbefore : ((rs.map Requirement.name).eraseDups.map fun name =>
      (name, Value.document ⟨operatorsOn name (rs ++ [r])⟩)) = (gather rs).entries := by
    rw [entries_gather]
    apply List.map_congr_left
    intro name hname'
    rw [operatorsOn_concat_of_ne (ne_of_mem_of_not_mem hname' hmem)]
  have hself : Document.mk (operatorsOn r.name (rs ++ [r])) = r.operators := by
    rw [operatorsOn_concat_self, operatorsOn_eq_nil hname, List.nil_append]
    cases r.operators
    rfl
  have hentries : (gather rs).entries ++ [(r.name, .document r.operators)] =
      (gather (rs ++ [r])).entries := by
    rw [entries_gather_concat, addNew, if_neg hmem, List.map_append, hbefore,
      List.map_singleton, hself]
  rw [Document.insert, Document.insertEntry_of_lookup_eq_none hnone, hentries]
  rfl

/-- The operators of a requirement join those on its field if they have none in common. -/
theorem mergeOperators?_operatorsOn (h : Compatible (rs ++ [r]))
    (hname : r.name ∈ rs.map Requirement.name) :
    mergeOperators? ⟨operatorsOn r.name rs⟩ r.operators =
      some ⟨operatorsOn r.name (rs ++ [r])⟩ := by
  obtain ⟨hplain, hapart⟩ := h
  rw [List.forall_mem_append] at hplain
  have hops : Document.isOperators ⟨operatorsOn r.name rs⟩ = true :=
    (isPlain_operatorsOn hplain.1 hname).isOperators
  have hops' : r.operators.isOperators = true :=
    (hplain.2 r (List.mem_singleton_self r)).isOperators
  have hdisj : (r.operators.keys.any (Document.contains ⟨operatorsOn r.name rs⟩)) = false := by
    rw [List.any_eq_false]
    intro key hkey hcontains
    obtain ⟨s, hs, hsname, hkey'⟩ := mem_keys_operatorsOn.mp (Document.contains_iff.mp hcontains)
    have hsr : s.Apart r := (List.pairwise_append.mp hapart).2.2 s hs r (by simp)
    exact hsr hsname key hkey' hkey
  rw [mergeOperators?, hops, hops', hdisj, operatorsOn_concat_self]
  rfl

/-- A requirement that is in the way of none before it is merged: on a new field it comes last, and
on a field that is there already it joins the operators on it. -/
theorem mergeEntry?_gather (h : Compatible (rs ++ [r])) :
    mergeEntry? (gather rs) r.entry = some (gather (rs ++ [r])) := by
  show mergeEntry? (gather rs) (r.name, .document r.operators) = _
  unfold mergeEntry?
  by_cases hname : r.name ∈ rs.map Requirement.name
  · have hfield : isOperatorKey r.name = false := (h.plain r (by simp)).isField
    rw [find?_gather hname]
    simp only [hfield, mergeOperators?_operatorsOn h hname, Option.map_some,
      insert_gather_of_mem hname]
    exact if_neg Bool.false_ne_true
  · have hnone : (gather rs).find? r.name = none := by
      rwa [Document.find?_eq_none_iff, keys_gather, List.mem_eraseDups]
    rw [hnone]
    exact congrArg some (insert_gather_of_not_mem hname)

/-- Compatible requirements can be merged one after the other. -/
theorem foldlM_mergeEntry?_gather (h : Compatible (rs ++ ss)) :
    (ss.map Requirement.entry).foldlM mergeEntry? (gather rs) = some (gather (rs ++ ss)) := by
  induction ss generalizing rs with
  | nil =>
    rw [List.append_nil]
    rfl
  | cons s ss ih =>
    rw [List.append_cons] at h ⊢
    rw [List.map_cons, List.foldlM_cons, mergeEntry?_gather h.left]
    exact ih h

theorem merge?_gather (h : Compatible (rs ++ ss)) :
    merge? (gather rs) (gather ss) = some (gather (rs ++ ss)) := by
  rw [← gather_append_regrouped]
  exact foldlM_mergeEntry?_gather h.append_regrouped

/-! ## Combining -/

theorem isEmpty_gather (rs : List Requirement) : (gather rs).isEmpty = rs.isEmpty := by
  cases rs with
  | nil => rfl
  | cons r rs => simp [Document.isEmpty, entries_gather, List.eraseDups_cons]

/-- What is gathered is no group. -/
theorem groupItems?_gather (operator : String) (rs : List Requirement) :
    groupItems? operator (gather rs) = none := by
  apply Option.eq_none_iff_forall_ne_some.mpr
  intro items hitems
  have hentries := congrArg Document.entries (groupItems?_eq_some.mp hitems)
  have hmem : (operator, .array items) ∈ (gather rs).entries := by
    rw [hentries]
    exact List.mem_singleton_self _
  rw [entries_gather] at hmem
  obtain ⟨name, -, hname⟩ := List.mem_map.mp hmem
  cases hname

/-- **Two conditions whose requirements are compatible are combined by gathering them**: their
conjunction is the condition with all their requirements, and no group is needed. -/
theorem both_gather (h : Compatible (rs ++ ss)) :
    both (gather rs) (gather ss) = gather (rs ++ ss) := by
  unfold both
  rw [isEmpty_gather, isEmpty_gather, sharesField_eq, sharesField_eq, groupItems?_gather,
    groupItems?_gather, merge?_gather h]
  cases rs with
  | nil => rfl
  | cons r rs =>
    cases ss with
    | nil => simp
    | cons s ss => rfl

/-! ## What gathered requirements look like -/

theorem gather_singleton (r : Requirement) : gather [r] = ⟨[r.entry]⟩ := by
  obtain ⟨name, ⟨operators⟩⟩ := r
  simp [gather, regrouped, operatorsOn, Requirement.entry, List.eraseDups_cons]

theorem requirements_gather_singleton (r : Requirement) : requirements (gather [r]) = [r] := by
  rw [gather_singleton]
  rfl

/-- A condition without groups: distinct fields, and operators on each of them. -/
structure IsFlat (d : Document) : Prop where
  nodup : d.keys.Nodup
  plain : ∀ e ∈ d.entries, ∃ r : Requirement, r.IsPlain ∧ e = r.entry

theorem isFlat_gather (h : ∀ r ∈ rs, r.IsPlain) : IsFlat (gather rs) := by
  constructor
  · rw [keys_gather]
    exact nodup_eraseDups _
  · intro e he
    rw [entries_gather] at he
    obtain ⟨name, hname, rfl⟩ := List.mem_map.mp he
    exact ⟨_, isPlain_operatorsOn h (List.mem_eraseDups.mp hname), rfl⟩

end EntityQuery.Condition
