import EntityQuery.Json.Source
import Mathlib.Data.List.Basic

/-!
# The members of an object that is read

Reading an object keeps the names and the order of its members, so parts of an object and objects in
another order are read like the whole.
-/

namespace EntityQuery.Json.Source

variable {members members' : List (String × Source)} {js js' : List (String × Json)}

theorem json?_array {items : List Source} {js : List Json} (h : itemsJson? items = some js) :
    (Source.array items).json? = some (.array js) := by
  rw [json?, h]
  rfl

theorem json?_object (h : membersJson? members = some js) :
    (Source.object members).json? = some (.object js) := by
  rw [json?, h]
  rfl

theorem membersJson?_cons_eq_some {name : String} {s : Source} :
    membersJson? ((name, s) :: members) = some js ↔
      ∃ j rest, s.json? = some j ∧ membersJson? members = some rest ∧ js = (name, j) :: rest := by
  simp only [membersJson?, Option.bind_eq_bind, Option.bind_eq_some_iff]
  constructor
  · rintro ⟨j, hj, rest, hrest, h⟩
    exact ⟨j, rest, hj, hrest, (Option.some.inj h).symm⟩
  · rintro ⟨j, rest, hj, hrest, rfl⟩
    exact ⟨j, hj, rest, hrest, rfl⟩

theorem membersJson?_cons {name : String} {s : Source} {j : Json} (h : s.json? = some j)
    (hrest : membersJson? members = some js) :
    membersJson? ((name, s) :: members) = some ((name, j) :: js) :=
  membersJson?_cons_eq_some.mpr ⟨j, js, h, hrest, rfl⟩

theorem map_fst_membersJson? (h : membersJson? members = some js) :
    js.map Prod.fst = members.map Prod.fst := by
  induction members generalizing js with
  | nil =>
    obtain rfl := Option.some.inj h
    rfl
  | cons m members ih =>
    obtain ⟨j, rest, -, hrest, rfl⟩ := membersJson?_cons_eq_some.mp h
    exact congrArg (m.1 :: ·) (ih hrest)

/-- What holds of all names before the reading holds of them behind it. -/
theorem forall_mem_membersJson? (p : String → Prop) (h : membersJson? members = some js) :
    (∀ m ∈ js, p m.1) ↔ ∀ m ∈ members, p m.1 := by
  have hnames := map_fst_membersJson? h
  constructor
  · intro hp m hm
    obtain ⟨m', hm', heq⟩ := List.mem_map.mp (hnames ▸ List.mem_map_of_mem hm)
    exact heq ▸ hp m' hm'
  · intro hp m hm
    obtain ⟨m', hm', heq⟩ := List.mem_map.mp (hnames ▸ List.mem_map_of_mem hm)
    exact heq ▸ hp m' hm'

theorem membersJson?_append (h : membersJson? members = some js)
    (h' : membersJson? members' = some js') :
    membersJson? (members ++ members') = some (js ++ js') := by
  induction members generalizing js with
  | nil =>
    obtain rfl := Option.some.inj h
    exact h'
  | cons m members ih =>
    obtain ⟨j, rest, hj, hrest, rfl⟩ := membersJson?_cons_eq_some.mp h
    exact membersJson?_cons hj (ih hrest)

/-- Members that are each in range are in range together. -/
theorem isSome_membersJson? (h : ∀ m ∈ members, m.2.json?.isSome = true) :
    ∃ js, membersJson? members = some js := by
  induction members with
  | nil => exact ⟨[], rfl⟩
  | cons m members ih =>
    obtain ⟨hm, hmembers⟩ := List.forall_mem_cons.mp h
    obtain ⟨j, hj⟩ := Option.isSome_iff_exists.mp hm
    obtain ⟨js, hjs⟩ := ih hmembers
    exact ⟨_, membersJson?_cons hj hjs⟩

/-- Members in another order are read in this order. -/
theorem membersJson?_perm (h : members.Perm members') (hread : membersJson? members' = some js') :
    ∃ js, membersJson? members = some js ∧ js.Perm js' := by
  induction h generalizing js' with
  | nil => exact ⟨js', hread, .refl _⟩
  | cons m _ ih =>
    obtain ⟨j, rest, hj, hrest, rfl⟩ := membersJson?_cons_eq_some.mp hread
    obtain ⟨js, hjs, hperm⟩ := ih hrest
    exact ⟨_, membersJson?_cons hj hjs, hperm.cons _⟩
  | swap m m' members =>
    obtain ⟨j, rest, hj, hrest, rfl⟩ := membersJson?_cons_eq_some.mp hread
    obtain ⟨j', rest', hj', hrest', rfl⟩ := membersJson?_cons_eq_some.mp hrest
    exact ⟨_, membersJson?_cons hj' (membersJson?_cons hj hrest'), .swap _ _ _⟩
  | trans _ _ ih ih' =>
    obtain ⟨js, hjs, hperm⟩ := ih' hread
    obtain ⟨js', hjs', hperm'⟩ := ih hjs
    exact ⟨js', hjs', hperm'.trans hperm⟩

/-- Members that are chosen by their names are read like all members. -/
theorem membersJson?_filter (p : String → Bool) (h : membersJson? members = some js) :
    membersJson? (members.filter fun m => p m.1) = some (js.filter fun m => p m.1) := by
  induction members generalizing js with
  | nil =>
    obtain rfl := Option.some.inj h
    rfl
  | cons m members ih =>
    obtain ⟨j, rest, hj, hrest, rfl⟩ := membersJson?_cons_eq_some.mp h
    simp only [List.filter_cons]
    split
    · exact membersJson?_cons hj (ih hrest)
    · exact ih hrest

end EntityQuery.Json.Source
