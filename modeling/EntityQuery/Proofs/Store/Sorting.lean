import EntityQuery.Proofs.Plan.Selection
import EntityQuery.Proofs.Store.Run

/-!
# Sorting records

Sorting by keys is a stable sort by a total preorder. It can be exchanged with narrowing the records
when no key reads a field that is narrowed away.
-/

namespace EntityQuery

namespace Store

variable (S : Store) {keys : List SortKey}

/-! ## The order of records -/

theorem transCmp_compareKey (path : FieldPath) (d : Direction) :
    Std.TransCmp (S.compareKey path d) := by
  have hcompare := S.transCmp_compare
  cases d with
  | ascending =>
    exact
      { eq_swap := hcompare.toOrientedCmp.eq_swap
        isLE_trans := hcompare.isLE_trans }
  | descending =>
    exact
      { eq_swap := hcompare.toOrientedCmp.eq_swap
        isLE_trans := fun hrs hst => hcompare.isLE_trans hst hrs }

theorem transCmp_compareBy (keys : List SortKey) : Std.TransCmp (S.compareBy keys) := by
  induction keys with
  | nil => exact { eq_swap := rfl, isLE_trans := fun _ _ => rfl }
  | cons key keys ih =>
    obtain ⟨path, d⟩ := key
    have hkey := S.transCmp_compareKey path d
    unfold compareBy
    infer_instance

theorem pairwise_sort (records : List Document) :
    (S.sort keys records).Pairwise fun r s => (S.compareBy keys r s).isLE = true := by
  have hcmp := S.transCmp_compareBy keys
  apply List.pairwise_mergeSort
  · intro r s t hrs hst
    exact hcmp.isLE_trans hrs hst
  · intro r s
    rw [hcmp.toOrientedCmp.eq_swap]
    cases S.compareBy keys s r <;> rfl

/-- Records that no key tells apart are not moved. -/
theorem sort_eq_self {records : List Document}
    (h : ∀ r ∈ records, ∀ s ∈ records, S.compareBy keys r s = .eq) :
    S.sort keys records = records := by
  apply List.mergeSort_of_pairwise
  apply List.Pairwise.imp_of_mem _ (List.pairwise_of_forall fun _ _ => trivial)
  intro r s hr hs _
  rw [h r hr s hs]
  rfl

/-- A block of records moves before a block of greater ones. -/
theorem sort_replicate {r s : Document} (h : S.compareBy keys r s = .lt) (n : Nat) :
    S.sort keys (List.replicate n s ++ List.replicate n r) =
      List.replicate n r ++ List.replicate n s := by
  have hcmp := S.transCmp_compareBy keys
  have hself : ∀ t, (S.compareBy keys t t).isLE = true := by
    intro t
    have ht : S.compareBy keys t t = .eq := Std.ReflCmp.compare_self
    rw [ht]
    rfl
  have hgt : S.compareBy keys s r = .gt := by
    rw [hcmp.toOrientedCmp.eq_swap, h]
    rfl
  -- Both sides are sorted and have the same records.
  apply List.Perm.eq_of_pairwise _ (S.pairwise_sort _)
  · rw [List.pairwise_append]
    refine ⟨?_, ?_, ?_⟩
    · exact List.pairwise_replicate.mpr (Or.inr (hself r))
    · exact List.pairwise_replicate.mpr (Or.inr (hself s))
    · intro a ha b hb
      rw [List.eq_of_mem_replicate ha, List.eq_of_mem_replicate hb, h]
      rfl
  · exact (List.mergeSort_perm _ _).trans List.perm_append_comm
  · -- Of the two records, only the same one can stand on both sides of another.
    intro a b ha hb hab hba
    have ha : a = r ∨ a = s := by
      rcases List.mem_append.mp (List.mem_mergeSort.mp ha) with ha | ha
      · exact Or.inr (List.eq_of_mem_replicate ha)
      · exact Or.inl (List.eq_of_mem_replicate ha)
    have hb : b = r ∨ b = s := by
      rcases List.mem_append.mp hb with hb | hb
      · exact Or.inl (List.eq_of_mem_replicate hb)
      · exact Or.inr (List.eq_of_mem_replicate hb)
    rcases ha with rfl | rfl <;> rcases hb with rfl | rfl
    · rfl
    · rw [hgt] at hba
      cases hba
    · rw [hgt] at hab
      cases hab
    · rfl

/-! ## Sorting narrowed records -/

theorem nil_not_mem_map_segments (selection : Selection) :
    [] ∉ selection.map FieldPath.segments := by
  intro hmem
  obtain ⟨q, -, hq⟩ := List.mem_map.mp hmem
  exact q.ne_nil hq

theorem valuesAt_keepPaths {selection : Selection} {path : List String}
    (h : Kept (selection.map FieldPath.segments) path) (record : Document) :
    (Value.document (record.keepPaths selection)).valuesAt path =
      (Value.document record).valuesAt path := by
  have hvalue := Value.valuesAt_keep? h (nil_not_mem_map_segments selection) (.document record)
  rw [Value.keep?, Option.toList_some, itemsAt, itemsAt, List.append_nil] at hvalue
  exact hvalue

/-- A kept path leads to what it led to before. -/
theorem valuesOf_keepPaths {selection : Selection} {p : FieldPath}
    (h : selection.covers p = true) (record : Document) :
    (record.keepPaths selection).valuesOf p = record.valuesOf p := by
  obtain ⟨q, hq, hqp⟩ := Selection.covers_iff.mp h
  exact valuesAt_keepPaths ⟨q.segments, List.mem_map_of_mem hq, FieldPath.covers_iff.mp hqp⟩ record

theorem compareBy_keepPaths {selection : Selection}
    (h : ∀ key ∈ keys, selection.covers key.1 = true) (r s : Document) :
    S.compareBy keys (r.keepPaths selection) (s.keepPaths selection) = S.compareBy keys r s := by
  induction keys with
  | nil => rfl
  | cons key keys ih =>
    obtain ⟨path, d⟩ := key
    have hpath : selection.covers path = true := h (path, d) List.mem_cons_self
    have hkey : S.compareKey path d (r.keepPaths selection) (s.keepPaths selection) =
        S.compareKey path d r s := by
      simp only [compareKey, keyValue, valuesOf_keepPaths hpath]
    have hrest := ih fun key hk => h key (List.mem_cons_of_mem _ hk)
    show (S.compareKey path d _ _).then (S.compareBy keys _ _) = _
    rw [hkey, hrest]
    rfl

theorem sort_narrow {selection : Selection}
    (h : selection = [] ∨ ∀ key ∈ keys, selection.covers key.1 = true)
    (records : List Document) :
    S.sort keys (narrow selection records) = narrow selection (S.sort keys records) := by
  unfold narrow
  split
  · rfl
  · rename_i hne
    have hcovers : ∀ key ∈ keys, selection.covers key.1 = true := by
      rcases h with rfl | h
      · exact absurd rfl hne
      · exact h
    apply Eq.symm
    apply List.map_mergeSort
    intro r _ s _
    rw [S.compareBy_keepPaths hcovers]

end Store

end EntityQuery
