import EntityQuery.Proofs.Condition.Merge

/-!
# The truth of conditions

A condition holds when each of its entries does. What a group says is fixed here, and what an entry
on a field says is left to a reading. Combining conditions then means what it should: `both` is
conjunction, `either` disjunction and `complement` negation, as long as the operators that are put
together on one field can be read one set after the other.
-/

namespace EntityQuery.Condition

/-- What the parts of a condition say that its structure leaves open. -/
structure Reading where
  /-- The operators on a field. -/
  field : String → List (String × Value) → Bool
  /-- Any other entry that is no group. -/
  entry : String → Value → Bool
  /-- A member of a group that is no document. -/
  member : Value → Bool

/-- How a group combines its members: all of them, any of them, or none. -/
def connective? (key : String) : Option (List Bool → Bool) :=
  if key = "$and" then some fun bs => bs.all id
  else if key = "$or" then some fun bs => bs.any id
  else if key = "$nor" then some fun bs => !bs.any id
  else none

namespace Reading

mutual

def holds (R : Reading) : Document → Bool
  | ⟨entries⟩ => holdAll R entries

def holdAll (R : Reading) : List (String × Value) → Bool
  | [] => true
  | (key, v) :: entries => entryHolds R key v && holdAll R entries

def entryHolds (R : Reading) (key : String) : Value → Bool
  | .array items =>
    match connective? key with
    | some combine => combine (memberTruths R items)
    | none => R.entry key (.array items)
  | .document d =>
    if !isOperatorKey key && d.isOperators then R.field key d.entries
    else R.entry key (.document d)
  | v => R.entry key v

def memberTruths (R : Reading) : List Value → List Bool
  | [] => []
  | v :: vs => memberHolds R v :: memberTruths R vs

def memberHolds (R : Reading) : Value → Bool
  | .document d => holds R d
  | v => R.member v

end

variable (R : Reading)

/-! ## Entries and groups -/

theorem holds_eq (d : Document) : R.holds d = R.holdAll d.entries := by
  cases d
  rw [holds]

theorem holdAll_append (a b : List (String × Value)) :
    R.holdAll (a ++ b) = (R.holdAll a && R.holdAll b) := by
  induction a with
  | nil => simp [holdAll]
  | cons entry a ih => simp only [List.cons_append, holdAll, ih, Bool.and_assoc]

theorem memberTruths_eq_map (items : List Value) :
    R.memberTruths items = items.map R.memberHolds := by
  induction items with
  | nil => rfl
  | cons v vs ih => rw [memberTruths, ih, List.map_cons]

theorem holds_single (key : String) (v : Value) :
    R.holds (.single key v) = R.entryHolds key v := by
  rw [holds_eq]
  simp [Document.single, holdAll]

theorem holds_of_isEmpty {d : Document} (h : d.isEmpty = true) : R.holds d = true := by
  rw [holds_eq, List.isEmpty_iff.mp h, holdAll]

theorem holds_and (items : List Value) :
    R.holds (.single "$and" (.array items)) = items.all R.memberHolds := by
  rw [holds_single, entryHolds, memberTruths_eq_map]
  simp [connective?, List.all_map]

theorem holds_or (items : List Value) :
    R.holds (.single "$or" (.array items)) = items.any R.memberHolds := by
  rw [holds_single, entryHolds, memberTruths_eq_map]
  simp [connective?, List.any_map]

theorem holds_nor (items : List Value) :
    R.holds (.single "$nor" (.array items)) = !items.any R.memberHolds := by
  rw [holds_single, entryHolds, memberTruths_eq_map]
  simp [connective?, List.any_map]

/-! ## Grouping -/

/-- The members of a condition are those of its own group, or it is its only member. -/
theorem members_cases (operator : String) (d : Document) :
    (∃ items, d = .single operator (.array items) ∧ members operator d = items) ∨
      members operator d = [.document d] := by
  obtain ⟨entries⟩ := d
  unfold members
  split
  · rename_i key items heq
    split
    · rename_i hkey
      dsimp only at heq
      subst hkey heq
      exact .inl ⟨items, rfl, rfl⟩
    · exact .inr rfl
  · exact .inr rfl

theorem all_members (d : Document) : (members "$and" d).all R.memberHolds = R.holds d := by
  rcases members_cases "$and" d with ⟨items, rfl, h⟩ | h
  · rw [h, holds_and]
  · rw [h]
    simp [memberHolds]

theorem any_members (d : Document) : (members "$or" d).any R.memberHolds = R.holds d := by
  rcases members_cases "$or" d with ⟨items, rfl, h⟩ | h
  · rw [h, holds_or]
  · rw [h]
    simp [memberHolds]

theorem holds_group_and (a b : Document) :
    R.holds (group "$and" a b) = (R.holds a && R.holds b) := by
  rw [group, holds_and, List.all_append, all_members, all_members]

theorem holds_either (a b : Document) : R.holds (either a b) = (R.holds a || R.holds b) := by
  rw [either, group, holds_or, List.any_append, any_members, any_members]

theorem holds_complement (d : Document) : R.holds (complement d) = !R.holds d := by
  rw [complement, holds_nor]
  simp [memberHolds]

/-! ## Merging -/

/-- Sets of operators of one kind, on whatever field, can be read one after the other. -/
structure Separates (kind : Document → Prop) : Prop where
  append : ∀ {a b}, kind a → kind b → DisjointOperators a b → kind ⟨a.entries ++ b.entries⟩
  field : ∀ {a b} name, kind a → kind b → DisjointOperators a b →
    R.field name (a.entries ++ b.entries) = (R.field name a.entries && R.field name b.entries)

end Reading

/-- The operators on each field of a condition are of one kind. -/
def OnFields (kind : Document → Prop) (d : Document) : Prop :=
  ∀ name m, (name, .document m) ∈ d.entries → isOperatorKey name = false →
    m.isOperators = true → kind m

namespace Reading

variable {R : Reading} {kind : Document → Prop}

theorem entryHolds_operators {name : String} {m : Document} (hname : isOperatorKey name = false)
    (hm : m.isOperators = true) : R.entryHolds name (.document m) = R.field name m.entries := by
  rw [entryHolds, if_pos (by simp [hname, hm])]

theorem holds_mergeEntry? (h : R.Separates kind) {d d' : Document} {key : String} {v : Value}
    (hd : OnFields kind d)
    (hv : ∀ m, v = .document m → isOperatorKey key = false → m.isOperators = true → kind m)
    (hmerge : mergeEntry? d (key, v) = some d') :
    R.holds d' = (R.holds d && R.entryHolds key v) ∧ OnFields kind d' := by
  rcases mergeEntry?_eq_some hmerge with ⟨-, rfl⟩ | ⟨before, a, b, after, rfl, hkey, ha, hb, hdisj,
    rfl, rfl⟩
  · -- The key is new, so the entry stands alone at the end.
    constructor
    · rw [holds_eq, holds_eq, holdAll_append]
      simp only [holdAll, Bool.and_true]
    · intro name m hmem hname hm
      rcases List.mem_append.mp hmem with hmem | hmem
      · exact hd name m hmem hname hm
      · obtain ⟨rfl, rfl⟩ := Prod.mk.inj (List.mem_singleton.mp hmem)
        exact hv m rfl hname hm
  · -- The field is there already, and its operators are read one set after the other.
    have hka : kind a := hd key a (by simp) hkey ha
    have hkb : kind b := hv b rfl hkey hb
    constructor
    · rw [holds_eq, holds_eq, holdAll_append, holdAll_append, holdAll, holdAll,
        entryHolds_operators hkey ha, entryHolds_operators hkey hb,
        entryHolds_operators hkey (isOperators_append ha hb), h.field key hka hkb hdisj]
      cases R.holdAll before <;> cases R.field key a.entries <;> cases R.field key b.entries <;>
        simp
    · intro name m hmem hname hm
      rcases List.mem_append.mp hmem with hmem | hmem
      · exact hd name m (List.mem_append_left _ hmem) hname hm
      rcases List.mem_cons.mp hmem with heq | hmem
      · obtain ⟨rfl, heq⟩ := Prod.mk.inj heq
        cases heq
        exact h.append hka hkb hdisj
      · exact hd name m (List.mem_append_right _ (List.mem_cons_of_mem _ hmem)) hname hm

theorem holds_merge? (h : R.Separates kind) {a b d : Document} (ha : OnFields kind a)
    (hb : OnFields kind b) (hmerge : merge? a b = some d) :
    R.holds d = (R.holds a && R.holds b) ∧ OnFields kind d := by
  -- Along the entries of `b`: what has been merged says `a` and the entries done so far.
  rw [R.holds_eq b]
  refine merge?_induction
    (motive := fun done c => R.holds c = (R.holds a && R.holdAll done) ∧ OnFields kind c)
    hmerge ?_ ?_
  · exact ⟨by rw [holdAll, Bool.and_true], ha⟩
  · intro done c c' key v hmem hentry ⟨hholds, hfields⟩
    obtain ⟨hholds', hfields'⟩ := holds_mergeEntry? h hfields
      (fun m hm hkey hops => hb key m (hm ▸ hmem) hkey hops) hentry
    refine ⟨?_, hfields'⟩
    rw [hholds', hholds, holdAll_append, Bool.and_assoc]
    simp only [holdAll, Bool.and_true]

/-! ## Conjunction -/

theorem onFields_group (operator : String) (a b : Document) :
    OnFields kind (group operator a b) := by
  intro name m hmem
  cases List.mem_singleton.mp hmem

theorem holds_both (h : R.Separates kind) {a b : Document} (ha : OnFields kind a)
    (hb : OnFields kind b) :
    R.holds (both a b) = (R.holds a && R.holds b) ∧ OnFields kind (both a b) := by
  rcases both_cases a b with ⟨he, hboth⟩ | ⟨he, hboth⟩ | hboth | hmerge
  · rw [hboth, R.holds_of_isEmpty he, Bool.true_and]
    exact ⟨rfl, hb⟩
  · rw [hboth, R.holds_of_isEmpty he, Bool.and_true]
    exact ⟨rfl, ha⟩
  · rw [hboth, holds_group_and]
    exact ⟨rfl, onFields_group _ _ _⟩
  · exact holds_merge? h ha hb hmerge

end Reading

end EntityQuery.Condition
