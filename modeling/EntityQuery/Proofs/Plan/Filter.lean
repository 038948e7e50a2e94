import EntityQuery.Proofs.Condition.NamesRead
import EntityQuery.Proofs.Condition.Normal
import EntityQuery.Proofs.Plan.Projected

/-!
# The filter of a plan

A filter is put together from the conditions of the expressions that were read, one after the other.
So it is in normal form whatever is read into the plan, and the fields that it reads are those that
the plan has noted for it.
-/

namespace EntityQuery.Plan

open Condition (IsNormal namesRead)

variable {o : Options} {p q : Plan}

/-- Every condition that is demanded of a plan keeps its filter in normal form. -/
theorem Grows.isNormal_filter (h : Grows o p q) (hp : IsNormal o p.filter) :
    IsNormal o q.filter := by
  induction h with
  | refl => exact hp
  | addFilter _ hd ih => exact (ih hp).both (Condition.built_ofNode _ hd).isNormal
  | join _ _ _ ih _ => exact ih hp
  | _ => rename_i ih; exact ih hp

/-- The filter of the plan reads the fields that are noted for it, and no other. -/
def NotesFilter (p : Plan) : Prop :=
  ∀ name, name ∈ namesRead p.filter ↔ ∃ path ∈ p.filterPaths, path.dotted = name

theorem notesFilter_start (base? : Option FieldPath) : NotesFilter (.start base?) := by
  intro name
  simp [start, Document.empty, namesRead, Condition.entriesNames]

theorem Grows.notesFilter (h : Grows o p q) (hp : NotesFilter p) : NotesFilter q := by
  induction h with
  | refl => exact hp
  | addFilter _ hd ih =>
    intro name
    show name ∈ namesRead (Condition.both _ _) ↔ ∃ path ∈ List.foldl addNew _ _, _
    rw [Condition.mem_namesRead_both, ih hp name, (Condition.built_ofNode _ hd).mem_namesRead]
    simp only [mem_foldl_addNew, or_and_right, exists_or]
  | join _ _ _ ih _ => exact ih hp
  | _ => rename_i ih; exact ih hp

/-! ## Reading one node after the other -/

/-- The plan after nodes have been read into it one after the other. A node that cannot be read to
its end leaves what was read of it. -/
def readAll (o : Options) (roots : List (Option Node)) (p : Plan) : Plan :=
  roots.foldl (fun p root? => (readRoot o root? p).plan) p

theorem grows_readAll (roots : List (Option Node)) (p : Plan) :
    Grows o p (readAll o roots p) := by
  induction roots generalizing p with
  | nil => exact .refl p
  | cons root? roots ih => exact (grows_readRoot root? p).trans (ih _)

/-- **Conditions are in normal form**: that of every expression, and the filter of every plan after
any nodes have been read into it. -/
theorem isNormal_conditions (o : Options) :
    (∀ (e : Node) (base? : Option FieldPath) (d : Document),
        (Condition.ofNode o base? e).result = .ok d → IsNormal o d) ∧
      ∀ (base? : Option FieldPath) (roots : List (Option Node)),
        IsNormal o (readAll o roots (.start base?)).filter := by
  refine ⟨?_, ?_⟩
  · intro e base? d h
    exact (Condition.built_ofNode e h).isNormal
  · intro base? roots
    exact (grows_readAll roots (.start base?)).isNormal_filter Condition.isNormal_empty

/-- A disjunction inside a conjunction, beside two patterns on one field. -/
theorem isNormal_conditions_below_buyer :
    let buyer : FieldPath := ⟨["Buyer"], by decide, by decide +kernel⟩
    let o : Options := { ignoreCase := true }
    let name (text : String) : Node :=
      .call "contains" [.identifier "Name", .literal (.string text)]
    let age (c : Comparison) (n : Int64) : Node :=
      .binary (.comparison c) (.identifier "Age") (.literal (.integer n))
    let e : Node :=
      .binary .and (.binary .and (name "a") (name "b"))
        (.binary .or (.binary .or (age .lt 18) (age .gt 65)) (.literal (.boolean true)))
    ∃ d, (Condition.ofNode o (some buyer) e).result = .ok d ∧ d.keys = ["$and", "$or"] ∧
      IsNormal o d ∧
      IsNormal o (readAll o [some e, some (.skip e), some (.filter e)] (.start none)).filter := by
  intro buyer o name age e
  have hkeys : (Condition.ofNode o (some buyer) e).result.toOption.map Document.keys =
      some ["$and", "$or"] := by
    decide +kernel
  cases h : (Condition.ofNode o (some buyer) e).result with
  | error =>
    rw [h] at hkeys
    cases hkeys
  | ok d =>
    rw [h] at hkeys
    exact ⟨d, rfl, Option.some.inj hkeys, (isNormal_conditions o).1 e (some buyer) d h,
      (isNormal_conditions o).2 none _⟩

end EntityQuery.Plan
