import Mathlib.Data.List.Nodup
import EntityQuery.Proofs.Condition.Built

/-!
# The normal form of conditions

The document store accepts a condition only if it is well formed: its groups have members, its
expressions compare two fields, and its fields have operators. This is said here of a condition
together with all its members. Combining conditions keeps it, and it keeps groups flat. So every
condition that is compiled is in this form.
-/

namespace EntityQuery.Condition

open FieldPath (pieces IsSegment)

/-- The name can be read as a path in one way only. -/
def IsFieldName (name : String) : Prop :=
  ∀ s ∈ pieces name, IsSegment s

instance (name : String) : Decidable (IsFieldName name) :=
  inferInstanceAs (Decidable (∀ s ∈ pieces name, IsSegment s))

/-- What can stand beside an operator on a field. -/
inductive IsOperand : String → Value → Prop
  | comparison (c : Comparison) (v : Value) : IsOperand c.key v
  | membership {vs : List Value} (h : vs ≠ []) : IsOperand "$in" (.array vs)
  | pattern (s : String) : IsOperand "$regex" (.string s)
  | modifier : IsOperand "$options" (.string "i")

/-- The operators on a field. A modifier stands beside every pattern if case is ignored, and
nowhere else. -/
structure IsOperatorSet (o : Options) (d : Document) : Prop where
  isEmpty_eq : d.isEmpty = false
  nodup : d.keys.Nodup
  isOperand : ∀ key v, (key, v) ∈ d.entries → IsOperand key v
  modifier_iff : "$options" ∈ d.keys ↔ "$regex" ∈ d.keys ∧ o.ignoreCase = true

mutual

inductive IsNormal (o : Options) : Document → Prop
  | intro {d : Document} (nodup : d.keys.Nodup)
      (entry : ∀ key v, (key, v) ∈ d.entries → IsNormalEntry o key v) : IsNormal o d

inductive IsNormalEntry (o : Options) : String → Value → Prop
  /-- A conjunction or a disjunction. No member is nothing but a group of the same kind, and no
  member of a conjunction is empty. -/
  | group {operator : String} (hoperator : operator = "$and" ∨ operator = "$or")
      {ms : List Document} (two_le : 2 ≤ ms.length) (normal : ∀ m ∈ ms, IsNormal o m)
      (flat : ∀ m ∈ ms, m.keys ≠ [operator])
      (nonempty : operator = "$and" → ∀ m ∈ ms, m.isEmpty = false) :
      IsNormalEntry o operator (.array (ms.map .document))
  | complement {m : Document} (normal : IsNormal o m) :
      IsNormalEntry o "$nor" (.array [.document m])
  | never : IsNormalEntry o "$expr" (.bool false)
  /-- The comparison of two fields, each written behind a dollar sign. -/
  | fields (c : Comparison) {a b : String} (ha : IsFieldName a) (hb : IsFieldName b) :
      IsNormalEntry o "$expr" (.document (.single c.key (.array [.string ("$" ++ a),
        .string ("$" ++ b)])))
  | field {name : String} (hname : IsFieldName name) {m : Document} (hm : IsOperatorSet o m) :
      IsNormalEntry o name (.document m)

end

variable {o : Options} {a b d : Document}

theorem IsNormal.nodup (h : IsNormal o d) : d.keys.Nodup := by
  cases h
  assumption

theorem IsNormal.entry (h : IsNormal o d) {key : String} {v : Value}
    (hmem : (key, v) ∈ d.entries) : IsNormalEntry o key v := by
  obtain ⟨-, hentry⟩ := h
  exact hentry key v hmem

theorem isNormal_single {key : String} {v : Value} (h : IsNormalEntry o key v) :
    IsNormal o (.single key v) := by
  refine .intro (List.nodup_singleton _) ?_
  intro key' v' hmem
  cases List.mem_singleton.mp hmem
  exact h

/-! ## Operators on a field -/

theorem IsOperatorSet.append (ha : IsOperatorSet o a) (hb : IsOperatorSet o b)
    (hdisj : DisjointOperators a b) : IsOperatorSet o ⟨a.entries ++ b.entries⟩ := by
  have hkeys : Document.keys ⟨a.entries ++ b.entries⟩ = a.keys ++ b.keys := List.map_append
  refine ⟨?_, ?_, ?_, ?_⟩
  · have hne : a.entries ≠ [] := by simpa [Document.isEmpty] using ha.isEmpty_eq
    simp [Document.isEmpty, hne]
  · rw [hkeys]
    refine List.nodup_append.mpr ⟨ha.nodup, hb.nodup, ?_⟩
    rintro k hka _ hkb rfl
    have hnot := List.any_eq_false.mp hdisj k hkb
    exact hnot (Document.contains_iff.mpr hka)
  · intro key v hmem
    rcases List.mem_append.mp hmem with hmem | hmem
    · exact ha.isOperand key v hmem
    · exact hb.isOperand key v hmem
  · rw [hkeys, List.mem_append, List.mem_append, ha.modifier_iff, hb.modifier_iff, or_and_right]

theorem isOperatorSet_single {key : String} {v : Value} (h : IsOperand key v)
    (hregex : key ≠ "$regex") (hoptions : key ≠ "$options") :
    IsOperatorSet o (.single key v) := by
  refine ⟨rfl, List.nodup_singleton _, ?_, ?_⟩
  · intro key' v' hmem
    cases List.mem_singleton.mp hmem
    exact h
  · have hkeys : (Document.single key v).keys = [key] := rfl
    rw [hkeys, List.mem_singleton, List.mem_singleton]
    simp [hregex.symm, hoptions.symm]

/-- Under a name that is no operator there are operators on a field, or else no document. -/
theorem IsNormalEntry.isOperatorSet {name : String} {m : Document}
    (h : IsNormalEntry o name (.document m)) (hname : isOperatorKey name = false) :
    IsFieldName name ∧ IsOperatorSet o m := by
  cases h with
  | fields => exact absurd hname (by decide +kernel)
  | field hname hm => exact ⟨hname, hm⟩

/-! ## Merging -/

theorem IsNormal.mergeEntry? {d' : Document} {key : String} {v : Value} (hd : IsNormal o d)
    (hv : IsNormalEntry o key v) (h : mergeEntry? d (key, v) = some d') : IsNormal o d' := by
  rcases mergeEntry?_eq_some h with ⟨hnew, rfl⟩ | ⟨before, a, b, after, rfl, hkey, -, -, hdisj,
    rfl, rfl⟩
  · -- A new entry is put behind the others.
    have hkeys : Document.keys ⟨d.entries ++ [(key, v)]⟩ = d.keys ++ [key] := List.map_append
    refine .intro ?_ ?_
    · rw [hkeys, ← List.concat_eq_append]
      exact hd.nodup.concat (Document.find?_eq_none_iff.mp hnew)
    · intro key' v' hmem
      rcases List.mem_append.mp hmem with hmem | hmem
      · exact hd.entry hmem
      · cases List.mem_singleton.mp hmem
        exact hv
  · -- The operators of the entry join those on its field, and no key is added.
    have hnodup := hd.nodup
    refine .intro ?_ ?_
    · simpa [Document.keys] using hnodup
    · obtain ⟨hname, ha⟩ := (hd.entry (v := .document a) (by simp)).isOperatorSet hkey
      obtain ⟨-, hb⟩ := hv.isOperatorSet hkey
      intro key' v' hmem
      rcases List.mem_append.mp hmem with hmem | hmem
      · exact hd.entry (List.mem_append_left _ hmem)
      rcases List.mem_cons.mp hmem with heq | hmem
      · cases heq
        exact .field hname (ha.append hb hdisj)
      · exact hd.entry (List.mem_append_right _ (List.mem_cons_of_mem _ hmem))

theorem IsNormal.merge? (ha : IsNormal o a) (hb : IsNormal o b) (h : merge? a b = some d) :
    IsNormal o d :=
  merge?_induction (motive := fun _ c => IsNormal o c) h ha
    fun hmem hentry hc => hc.mergeEntry? (hb.entry hmem) hentry

/-! ## Grouping -/

/-- What the members of a group have to be. -/
structure AreMembers (o : Options) (operator : String) (ms : List Document) : Prop where
  normal : ∀ m ∈ ms, IsNormal o m
  flat : ∀ m ∈ ms, m.keys ≠ [operator]
  nonempty : operator = "$and" → ∀ m ∈ ms, m.isEmpty = false

theorem AreMembers.append {operator : String} {ms ns : List Document}
    (hm : AreMembers o operator ms) (hn : AreMembers o operator ns) :
    AreMembers o operator (ms ++ ns) where
  normal := List.forall_mem_append.mpr ⟨hm.normal, hn.normal⟩
  flat := List.forall_mem_append.mpr ⟨hm.flat, hn.flat⟩
  nonempty h := List.forall_mem_append.mpr ⟨hm.nonempty h, hn.nonempty h⟩

/-- A normal entry of a group holds members of this group. -/
theorem IsNormalEntry.exists_members {operator : String}
    (hoperator : operator = "$and" ∨ operator = "$or") {v : Value}
    (h : IsNormalEntry o operator v) :
    ∃ ms : List Document, v = .array (ms.map .document) ∧ 2 ≤ ms.length ∧
      AreMembers o operator ms := by
  cases h with
  | group _ two_le normal flat nonempty => exact ⟨_, rfl, two_le, normal, flat, nonempty⟩
  | complement => exact absurd hoperator (by decide)
  | never => exact absurd hoperator (by decide)
  | fields => exact absurd hoperator (by decide)
  | field hname =>
    -- No path starts with the dollar sign of an operator.
    rcases hoperator with rfl | rfl
    · exact absurd hname (by decide +kernel)
    · exact absurd hname (by decide +kernel)

/-- A normal condition contributes to a group what its members have to be, one at least. -/
theorem IsNormal.exists_members {operator : String}
    (hoperator : operator = "$and" ∨ operator = "$or") (hd : IsNormal o d)
    (hnonempty : operator = "$and" → d.isEmpty = false) :
    ∃ ms : List Document, 1 ≤ ms.length ∧ members operator d = ms.map .document ∧
      AreMembers o operator ms := by
  by_cases hkeys : d.keys = [operator]
  · -- The condition is nothing but a group of this kind, so its members are taken over.
    obtain ⟨entries⟩ := d
    obtain ⟨⟨key, v⟩, rfl, rfl⟩ := List.map_eq_singleton_iff.mp hkeys
    obtain ⟨ms, rfl, htwo, hms⟩ := (hd.entry List.mem_cons_self).exists_members hoperator
    exact ⟨ms, by omega, if_pos rfl, hms⟩
  · -- It becomes a member itself.
    have hnone : groupItems? operator d = none := by
      cases h : groupItems? operator d with
      | none => rfl
      | some items =>
        rw [groupItems?_eq_some.mp h] at hkeys
        exact absurd rfl hkeys
    have hmembers : members operator d = [d].map .document := by
      rw [members_eq, hnone]
      rfl
    refine ⟨[d], Nat.le_refl 1, hmembers, ?_, ?_, ?_⟩
    · exact List.forall_mem_singleton.mpr hd
    · exact List.forall_mem_singleton.mpr hkeys
    · exact fun h => List.forall_mem_singleton.mpr (hnonempty h)

theorem IsNormal.group {operator : String} (hoperator : operator = "$and" ∨ operator = "$or")
    (ha : IsNormal o a) (hb : IsNormal o b) (hae : operator = "$and" → a.isEmpty = false)
    (hbe : operator = "$and" → b.isEmpty = false) : IsNormal o (group operator a b) := by
  obtain ⟨ms, hms, hma, ham⟩ := ha.exists_members hoperator hae
  obtain ⟨ns, hns, hnb, hbm⟩ := hb.exists_members hoperator hbe
  have hall := ham.append hbm
  apply isNormal_single
  rw [hma, hnb, ← List.map_append]
  refine .group hoperator ?_ hall.normal hall.flat hall.nonempty
  rw [List.length_append]
  omega

/-! ## Connectives -/

theorem IsNormal.both (ha : IsNormal o a) (hb : IsNormal o b) : IsNormal o (both a b) := by
  by_cases hae : a.isEmpty = true
  · rwa [Condition.both, if_pos hae]
  by_cases hbe : b.isEmpty = true
  · rwa [Condition.both, if_neg hae, if_pos hbe]
  rcases both_cases a b with ⟨h, -⟩ | ⟨h, -⟩ | hgroup | hmerge
  · exact absurd h hae
  · exact absurd h hbe
  · rw [hgroup]
    exact ha.group (.inl rfl) hb (fun _ => by simpa using hae) (fun _ => by simpa using hbe)
  · exact ha.merge? hb hmerge

/-- An alternative may be empty: it always holds. -/
theorem IsNormal.either (ha : IsNormal o a) (hb : IsNormal o b) : IsNormal o (either a b) :=
  ha.group (.inr rfl) hb (fun h => absurd h (by decide)) (fun h => absurd h (by decide))

theorem IsNormal.complement (h : IsNormal o d) : IsNormal o (complement d) :=
  isNormal_single (.complement h)

/-! ## The parts of conditions -/

theorem isFieldName_dotted (p : FieldPath) : IsFieldName p.dotted := by
  intro s hs
  rw [FieldPath.pieces_dotted] at hs
  exact p.isSegment s hs

theorem isNormal_empty : IsNormal o .empty :=
  .intro List.nodup_nil fun _ _ h => nomatch h

theorem isNormal_onField (p : FieldPath) {key : String} {v : Value} (h : IsOperand key v)
    (hregex : key ≠ "$regex") (hoptions : key ≠ "$options") : IsNormal o (onField p key v) :=
  isNormal_single (.field (isFieldName_dotted p) (isOperatorSet_single h hregex hoptions))

theorem isOperatorSet_pattern (m : TextSearch) (text : String) :
    IsOperatorSet o ⟨("$regex", .string (m.pattern text)) ::
      if o.ignoreCase then [("$options", .string "i")] else []⟩ := by
  cases hcase : o.ignoreCase with
  | false =>
    simp only [Bool.false_eq_true, if_false]
    refine ⟨rfl, List.nodup_singleton _, ?_, by simp [Document.keys, hcase]⟩
    intro key v hmem
    cases List.mem_singleton.mp hmem
    exact .pattern _
  | true =>
    simp only [if_true]
    refine ⟨rfl, by simp [Document.keys], ?_, by simp [Document.keys, hcase]⟩
    intro key v hmem
    rcases List.mem_cons.mp hmem with heq | hmem
    · cases heq
      exact .pattern _
    · cases List.mem_singleton.mp hmem
      exact .modifier

theorem isNormal_onText (p : FieldPath) (m : TextSearch) (text : String) :
    IsNormal o (onText o p m text) :=
  isNormal_single (.field (isFieldName_dotted p) (isOperatorSet_pattern m text))

theorem isNormal_betweenFields (c : Comparison) (p q : FieldPath) :
    IsNormal o (betweenFields c p q) :=
  isNormal_single (.fields c (isFieldName_dotted p) (isFieldName_dotted q))

/-- **Every condition that is built from its parts is in normal form.** -/
theorem Built.isNormal {base? : Option FieldPath} {ps : List FieldPath}
    (h : Built o base? d ps) : IsNormal o d := by
  induction h with
  | always => exact isNormal_empty
  | never => exact isNormal_single .never
  | comparison _ c v =>
    refine isNormal_onField _ (.comparison c v) ?_ ?_ <;> cases c <;> decide
  | membership _ hvs => exact isNormal_onField _ (.membership hvs) (by decide) (by decide)
  | text _ m text => exact isNormal_onText _ m text
  | fields _ _ c => exact isNormal_betweenFields c _ _
  | both _ _ iha ihb => exact iha.both ihb
  | either _ _ iha ihb => exact iha.either ihb
  | complement _ ih => exact ih.complement

end EntityQuery.Condition
