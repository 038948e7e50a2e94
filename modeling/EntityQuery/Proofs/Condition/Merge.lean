import EntityQuery.Condition.Connective
import EntityQuery.Proofs.Document.Entries

/-!
# What combining conditions can do

Each way in which two conditions are combined, with all that is known in that case: an entry that is
merged comes last or joins the operators on its field, and two conditions stay as they are, are
grouped, or are merged entry by entry.
-/

namespace EntityQuery.Condition

/-- The key names a group: what it says is said of the members below it. -/
def isGroupKey (key : String) : Bool :=
  key == "$and" || key == "$or" || key == "$nor"

theorem isOperatorKey_of_isGroupKey {key : String} (h : isGroupKey key = true) :
    isOperatorKey key = true := by
  simp only [isGroupKey, Bool.or_eq_true, beq_iff_eq] at h
  rcases h with (rfl | rfl) | rfl <;> decide +kernel

/-- The items of a condition that is nothing but a group. -/
def groupItems? (operator : String) (d : Document) : Option (List Value) :=
  match d.entries with
  | [(key, .array items)] => if key = operator then some items else none
  | _ => none

theorem groupItems?_eq_some {operator : String} {d : Document} {items : List Value} :
    groupItems? operator d = some items ↔ d = .single operator (.array items) := by
  obtain ⟨entries⟩ := d
  constructor
  · intro h
    unfold groupItems? at h
    split at h
    · rename_i key items' hentries
      split at h
      · rename_i hkey
        cases h
        rw [Document.single, ← hkey]
        exact congrArg Document.mk hentries
      · cases h
    · cases h
  · intro h
    rw [h]
    exact if_pos rfl

/-- Where a condition is changed entry by entry, a group stays a group under its key, and nothing
else becomes one. -/
theorem groupItems?_eq_map {operator : String} {d d' : Document} (key : String → String)
    (value : String → Value → Value) {f : List Value → List Value}
    (hentries : d'.entries = d.entries.map fun e => (key e.1, value e.1 e.2))
    (hkey : ∀ k ∈ d.keys, key k = operator ↔ k = operator)
    (harray : ∀ items, value operator (.array items) = .array (f items))
    (hother : ∀ v items, value operator v = .array items → ∃ items', v = .array items') :
    groupItems? operator d' = (groupItems? operator d).map f := by
  obtain ⟨entries⟩ := d
  obtain ⟨entries'⟩ := d'
  apply Option.ext
  intro items
  rw [Option.map_eq_some_iff, groupItems?_eq_some]
  constructor
  · intro h
    rw [Document.mk.inj h] at hentries
    obtain ⟨⟨k, v⟩, rfl, hmap⟩ := List.map_eq_singleton_iff.mp hentries.symm
    obtain ⟨hk, hv⟩ := Prod.mk.inj hmap
    obtain rfl := (hkey k List.mem_cons_self).mp hk
    obtain ⟨items', rfl⟩ := hother v items hv
    rw [harray] at hv
    exact ⟨items', groupItems?_eq_some.mpr rfl, Value.array.inj hv⟩
  · rintro ⟨items', hitems, rfl⟩
    cases groupItems?_eq_some.mp hitems
    have hk : key operator = operator := (hkey operator List.mem_cons_self).mpr rfl
    refine congrArg Document.mk (hentries.trans ?_)
    rw [List.map_singleton, hk, harray]

theorem members_eq (operator : String) (d : Document) :
    members operator d = (groupItems? operator d).getD [.document d] := by
  obtain ⟨entries⟩ := d
  unfold members
  split
  · rename_i key items hentries
    rw [groupItems?, hentries]
    dsimp only
    split <;> rfl
  · rename_i hentries
    cases h : groupItems? operator ⟨entries⟩ with
    | none => rfl
    | some items =>
      have hsingle := congrArg Document.entries (groupItems?_eq_some.mp h)
      exact (hentries operator items hsingle).elim

/-- The item of a group is about a field that `b` is about as well. -/
def itemShares (b : Document) : Value → Bool
  | .document m => m.keys.any fun k => !isOperatorKey k && b.contains k
  | _ => false

theorem sharesField_eq (a b : Document) :
    sharesField a b = (groupItems? "$and" a).any fun items => items.any (itemShares b) := by
  obtain ⟨entries⟩ := a
  unfold sharesField
  split
  · rename_i key items hentries
    rw [groupItems?, hentries]
    dsimp only
    by_cases h : key = "$and"
    · rw [h, if_pos rfl]
      rfl
    · rw [if_neg h, beq_false_of_ne h]
      rfl
  · rename_i hentries
    cases h : groupItems? "$and" ⟨entries⟩ with
    | none => rfl
    | some items =>
      have hsingle := congrArg Document.entries (groupItems?_eq_some.mp h)
      exact (hentries "$and" items hsingle).elim

/-! ## Operators on one field -/

/-- No operator of `b` is an operator of `a`. -/
def DisjointOperators (a b : Document) : Prop :=
  b.keys.any a.contains = false

theorem isOperators_append {a b : Document} (ha : a.isOperators = true)
    (hb : b.isOperators = true) : Document.isOperators ⟨a.entries ++ b.entries⟩ = true := by
  simp only [Document.isOperators, Document.isEmpty, Document.keys, Bool.and_eq_true,
    Bool.not_eq_true', List.isEmpty_eq_false_iff, List.map_append, List.all_append] at ha hb ⊢
  exact ⟨by simp [ha.1], ha.2, hb.2⟩

theorem mergeOperators?_eq_some {a b m : Document} (h : mergeOperators? a b = some m) :
    a.isOperators = true ∧ b.isOperators = true ∧ DisjointOperators a b ∧
      m = ⟨a.entries ++ b.entries⟩ := by
  unfold mergeOperators? at h
  split at h
  · rename_i hc
    simp only [Bool.and_eq_true, Bool.not_eq_true'] at hc
    exact ⟨hc.1.1, hc.1.2, hc.2, (Option.some.inj h).symm⟩
  · cases h

/-! ## Entries -/

/-- The two ways in which an entry is merged: under a new key, or into the operators that its field
has already. -/
theorem mergeEntry?_eq_some {d d' : Document} {key : String} {v : Value}
    (h : mergeEntry? d (key, v) = some d') :
    (d.find? key = none ∧ d' = ⟨d.entries ++ [(key, v)]⟩) ∨
      ∃ before a b after, v = .document b ∧ isOperatorKey key = false ∧
        a.isOperators = true ∧ b.isOperators = true ∧ DisjointOperators a b ∧
        d = ⟨before ++ (key, .document a) :: after⟩ ∧
        d' = ⟨before ++ (key, .document ⟨a.entries ++ b.entries⟩) :: after⟩ := by
  unfold mergeEntry? at h
  -- Only operators on one field are put together; all other repeated keys fail.
  cases hf : d.find? key with
  | none =>
    rw [hf] at h
    left
    refine ⟨rfl, ?_⟩
    rw [← Option.some.inj h, Document.insert, Document.insertEntry_of_lookup_eq_none hf]
  | some existing =>
    rw [hf] at h
    right
    dsimp only at h
    split at h
    · cases h
    · rename_i hkey
      split at h
      · rename_i a b
        obtain ⟨m, hm, rfl⟩ := Option.map_eq_some_iff.mp h
        obtain ⟨ha, hb, hdisj, rfl⟩ := mergeOperators?_eq_some hm
        obtain ⟨before, after, hd, hinsert⟩ := Document.exists_append_of_lookup_eq_some hf
        refine ⟨before, a, b, after, rfl, Bool.eq_false_iff.mpr hkey, ha, hb, hdisj, ?_, ?_⟩
        · cases d
          exact congrArg Document.mk hd
        · rw [Document.insert, hinsert]
      · cases h

/-! ## Conditions -/

/-- What is kept by merging one entry is kept by merging a condition. The relation is between the
entries merged so far and the outcome. -/
theorem merge?_induction {motive : List (String × Value) → Document → Prop} {a b d : Document}
    (h : merge? a b = some d) (nil : motive [] a)
    (merge : ∀ {done d d' key v}, (key, v) ∈ b.entries → mergeEntry? d (key, v) = some d' →
      motive done d → motive (done ++ [(key, v)]) d') :
    motive b.entries d := by
  -- The induction is on the entries that are left, with those that are done kept beside them.
  suffices hrun : ∀ (rest done : List (String × Value)) (c : Document),
      done ++ rest = b.entries → motive done c → rest.foldlM mergeEntry? c = some d →
        motive b.entries d from hrun b.entries [] a rfl nil h
  intro rest
  induction rest with
  | nil =>
    intro done c hdone hc hrest
    cases hrest
    rw [List.append_nil] at hdone
    exact hdone ▸ hc
  | cons entry rest ih =>
    intro done c hdone hc hrest
    obtain ⟨key, v⟩ := entry
    rw [List.foldlM_cons] at hrest
    obtain ⟨c', hc', hrest'⟩ := Option.bind_eq_some_iff.mp hrest
    have hmem : (key, v) ∈ b.entries := by simp [← hdone]
    exact ih (done ++ [(key, v)]) c' (by simp [← hdone]) (merge hmem hc' hc) hrest'

/-- The ways in which two conditions are combined. -/
theorem both_cases (a b : Document) :
    (a.isEmpty = true ∧ both a b = b) ∨ (b.isEmpty = true ∧ both a b = a) ∨
      both a b = group "$and" a b ∨ merge? a b = some (both a b) := by
  unfold both
  split
  · exact .inl ⟨‹_›, rfl⟩
  split
  · exact .inr (.inl ⟨‹_›, rfl⟩)
  split
  · exact .inr (.inr (.inl rfl))
  · cases hm : merge? a b with
    | none => exact .inr (.inr (.inl rfl))
    | some d => exact .inr (.inr (.inr rfl))

end EntityQuery.Condition
