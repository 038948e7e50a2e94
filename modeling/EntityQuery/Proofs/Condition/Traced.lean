import EntityQuery.Condition.Traced

/-!
# When an answer is there

Where something was made of an answer, the answer is there. A chain of steps has an answer exactly
when every step has one, and its paths are then those of the steps in their order.
-/

namespace EntityQuery

theorem exists_of_map_eq_ok {α β : Type} {x : Except CompileError α} {f : α → β} {b : β}
    (h : x.map f = .ok b) : ∃ a, x = .ok a ∧ b = f a := by
  cases x with
  | error e => cases h
  | ok a =>
    cases h
    exact ⟨a, rfl, rfl⟩

/-- Where all elements have answers, what is answered are the answers of the elements. -/
theorem mem_iff_of_map_eq_ok {α β : Type} {f : α → Except CompileError β} {xs : List α}
    {ys : List β} (h : xs.map f = ys.map .ok) {y : β} : y ∈ ys ↔ ∃ x ∈ xs, f x = .ok y := by
  have hmem : y ∈ ys ↔ Except.ok y ∈ xs.map f := by
    rw [h]
    simp
  rw [hmem, List.mem_map]

namespace Traced

variable {α β : Type}

theorem result_andThen_eq_ok {x : Traced α} {f : α → Traced β} {b : β} :
    (x.andThen f).result = .ok b ↔ ∃ a, x.result = .ok a ∧ (f a).result = .ok b := by
  unfold andThen
  split
  · rename_i a h
    simp [h]
  · rename_i e h
    simp [h]

theorem result_map_eq_ok {x : Traced α} {f : α → β} {b : β} :
    (x.map f).result = .ok b ↔ ∃ a, x.result = .ok a ∧ f a = b := by
  unfold map
  cases h : x.result <;> simp [Except.map]

theorem result_lift (r : Except CompileError α) : (lift r).result = r :=
  rfl

theorem result_fail (e : CompileError) : (fail e : Traced α).result = .error e :=
  rfl

theorem result_path (base? : Option FieldPath) (n : Node) :
    (path base? n).result = n.fieldPath base? := by
  unfold path
  split <;> simp_all [fail]

/-! ## The paths of an answer -/

theorem paths_andThen {x : Traced α} {f : α → Traced β} {a : α} (h : x.result = .ok a) :
    (x.andThen f).paths = x.paths ++ (f a).paths := by
  unfold andThen
  rw [h]

theorem paths_path {base? : Option FieldPath} {n : Node} {p : FieldPath}
    (h : n.fieldPath base? = .ok p) : (path base? n).paths = [p] := by
  rw [path, h]

end Traced

end EntityQuery
