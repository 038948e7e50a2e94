import EntityQuery.Proofs.Condition.Truth

/-!
# The parts of conditions

A condition is made of parts that are looked at no further: operators on fields, other entries, and
members of groups that are no documents. Whatever two conditions are, with groups of any members and
with entries that no expression is compiled to, combining them keeps the parts of both, each as often
as it is there, and it means what its name says. That a condition can be told part by part is all
that is asked for here.
-/

namespace EntityQuery.Condition

/-! ## Readings by parts -/

/-- What each part of a condition says by itself. -/
structure Valuation where
  operator : (field operator : String) → Value → Bool
  entry : (key : String) → Value → Bool
  member : Value → Bool

namespace Valuation

/-- The reading in which a field is as all its operators say, each of them read apart from those
beside it. -/
def reading (V : Valuation) : Reading where
  field name operators := operators.all fun e => V.operator name e.1 e.2
  entry := V.entry
  member := V.member

/-- Operators that are read apart can be put together in any way. -/
theorem separates (V : Valuation) : V.reading.Separates fun _ => True where
  append _ _ _ := trivial
  field _ _ _ _ := List.all_append

end Valuation

/-! ## Parts -/

inductive Part where
  /-- An operator on a field. -/
  | operator (field operator : String) (v : Value)
  /-- Any other entry that is no group. -/
  | entry (key : String) (v : Value)
  /-- A member of a group that is no document. -/
  | member (v : Value)

mutual

/-- The parts of a condition, in their order. Groups are gone through to any depth. -/
def parts : Document → List Part
  | ⟨entries⟩ => entriesParts entries

def entriesParts : List (String × Value) → List Part
  | [] => []
  | (key, v) :: entries => entryParts key v ++ entriesParts entries

def entryParts (key : String) : Value → List Part
  | .array items => if isGroupKey key then itemsParts items else [.entry key (.array items)]
  | .document d =>
    if !isOperatorKey key && d.isOperators then d.entries.map fun e => .operator key e.1 e.2
    else [.entry key (.document d)]
  | v => [.entry key v]

def itemsParts : List Value → List Part
  | [] => []
  | v :: items => itemParts v ++ itemsParts items

def itemParts : Value → List Part
  | .document d => parts d
  | v => [.member v]

end

theorem parts_eq (d : Document) : parts d = entriesParts d.entries := by
  cases d
  rw [parts]

theorem entriesParts_append (xs ys : List (String × Value)) :
    entriesParts (xs ++ ys) = entriesParts xs ++ entriesParts ys := by
  induction xs with
  | nil => rfl
  | cons e xs ih => rw [List.cons_append, entriesParts, entriesParts, ih, List.append_assoc]

theorem itemsParts_append (xs ys : List Value) :
    itemsParts (xs ++ ys) = itemsParts xs ++ itemsParts ys := by
  induction xs with
  | nil => rfl
  | cons v xs ih => rw [List.cons_append, itemsParts, itemsParts, ih, List.append_assoc]

theorem parts_of_isEmpty {d : Document} (h : d.isEmpty = true) : parts d = [] := by
  rw [parts_eq, List.isEmpty_iff.mp h]
  rfl

theorem entryParts_operators {name : String} {d : Document} (hname : isOperatorKey name = false)
    (hd : d.isOperators = true) :
    entryParts name (.document d) = d.entries.map fun e => .operator name e.1 e.2 := by
  rw [entryParts, if_pos (by simp [hname, hd])]

/-! ## Groups -/

theorem parts_group_single {operator : String} (h : isGroupKey operator = true)
    (items : List Value) : parts (.single operator (.array items)) = itemsParts items := by
  rw [parts_eq]
  show entryParts operator (.array items) ++ [] = itemsParts items
  rw [List.append_nil, entryParts, if_pos h]

theorem itemsParts_document (d : Document) : itemsParts [.document d] = parts d := by
  rw [itemsParts, itemParts, itemsParts, List.append_nil]

/-- A condition keeps its parts when it goes into a group, as one member or as its members. -/
theorem itemsParts_members {operator : String} (h : isGroupKey operator = true) (d : Document) :
    itemsParts (members operator d) = parts d := by
  rw [members_eq]
  cases hd : groupItems? operator d with
  | none => exact itemsParts_document d
  | some items => rw [groupItems?_eq_some.mp hd, parts_group_single h, Option.getD_some]

theorem parts_group {operator : String} (h : isGroupKey operator = true) (a b : Document) :
    parts (group operator a b) = parts a ++ parts b := by
  rw [group, parts_group_single h, itemsParts_append, itemsParts_members h, itemsParts_members h]

theorem parts_either (a b : Document) : parts (either a b) = parts a ++ parts b :=
  parts_group (by decide) a b

theorem parts_complement (d : Document) : parts (complement d) = parts d := by
  rw [complement, parts_group_single (by decide), itemsParts_document]

/-! ## Merging -/

/-- An entry that is merged brings its parts, behind all others or among those of its field. -/
theorem perm_parts_mergeEntry? {d d' : Document} {key : String} {v : Value}
    (h : mergeEntry? d (key, v) = some d') : (parts d').Perm (parts d ++ entryParts key v) := by
  rcases mergeEntry?_eq_some h with ⟨-, rfl⟩ | ⟨before, a, b, after, rfl, hkey, ha, hb, -, rfl, rfl⟩
  · rw [parts_eq, parts_eq, entriesParts_append, entriesParts, entriesParts, List.append_nil]
  · have hab := entryParts_operators hkey (isOperators_append ha hb)
    rw [parts_eq, parts_eq, entriesParts_append, entriesParts_append, entriesParts, entriesParts,
      hab, entryParts_operators hkey ha, entryParts_operators hkey hb, List.map_append]
    -- The operators of the entry stand before what comes after the field, not behind it.
    simp only [List.append_assoc]
    exact ((List.perm_append_comm.append_left _).append_left _)

theorem perm_parts_merge? {a b d : Document} (h : merge? a b = some d) :
    (parts d).Perm (parts a ++ parts b) := by
  rw [parts_eq b]
  -- Along the entries of `b`: what has been merged has the parts of `a` and of those done so far.
  refine merge?_induction
    (motive := fun done c => (parts c).Perm (parts a ++ entriesParts done)) h ?_ ?_
  · rw [entriesParts, List.append_nil]
  · intro done c c' key v _ hentry ih
    have hdone : entriesParts (done ++ [(key, v)]) = entriesParts done ++ entryParts key v := by
      rw [entriesParts_append, entriesParts, entriesParts, List.append_nil]
    rw [hdone, ← List.append_assoc]
    have hstep := perm_parts_mergeEntry? hentry
    exact hstep.trans (ih.append_right _)

theorem perm_parts_both (a b : Document) : (parts (both a b)).Perm (parts a ++ parts b) := by
  rcases both_cases a b with ⟨he, hboth⟩ | ⟨he, hboth⟩ | hboth | hmerge
  · rw [hboth, parts_of_isEmpty he, List.nil_append]
  · rw [hboth, parts_of_isEmpty he, List.append_nil]
  · rw [hboth, parts_group (by decide)]
  · exact perm_parts_merge? hmerge

/-! ## Combinations -/

/-- **Combining conditions means conjunction, disjunction and negation**, whatever the conditions are
and whatever their parts say, and none of the parts is lost, put in twice or written over. -/
theorem holds_combined (V : Valuation) (a b : Document) :
    (V.reading.holds (both a b) = (V.reading.holds a && V.reading.holds b) ∧
        (parts (both a b)).Perm (parts a ++ parts b)) ∧
      (V.reading.holds (either a b) = (V.reading.holds a || V.reading.holds b) ∧
        parts (either a b) = parts a ++ parts b) ∧
      V.reading.holds (complement a) = (!V.reading.holds a) ∧ parts (complement a) = parts a := by
  have hboth := Reading.holds_both V.separates (a := a) (b := b)
    (fun _ _ _ _ _ => trivial) (fun _ _ _ _ _ => trivial)
  exact ⟨⟨hboth.1, perm_parts_both a b⟩,
    ⟨V.reading.holds_either a b, parts_either a b⟩,
    V.reading.holds_complement a, parts_complement a⟩

end EntityQuery.Condition
