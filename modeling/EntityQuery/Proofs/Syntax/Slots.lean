import EntityQuery.Syntax.Decode
import Mathlib.Data.List.Basic

/-!
# Filling slots in any order

Members fill the slots of fields one by one. The invariant says of each slot that it is final, with
no member to come for it, or that it is empty, with one member to come. The order of the members does
not matter to it, nor do members that no slot is for.
-/

namespace EntityQuery

theorem Slots.fill_empty {f : Field} {fs : List Field} {slots : Slots fs}
    {decode : (f : Field) → Except DecodeError f.Content} {c : f.Content} (h : decode f = .ok c) :
    Slots.fill f.name decode (f :: fs) (none, slots) = .ok (some c, slots) := by
  refine Eq.trans (if_pos rfl) ?_
  exact congrArg (Except.map fun content => (some content, slots)) h

theorem Slots.fill_other {f : Field} {fs : List Field} {slot : Option f.Content}
    {slots next : Slots fs} {name : String} {decode : (f : Field) → Except DecodeError f.Content}
    (hname : f.name ≠ name) (h : Slots.fill name decode fs slots = .ok next) :
    Slots.fill name decode (f :: fs) (slot, slots) = .ok (slot, next) := by
  refine Eq.trans (if_neg hname) ?_
  exact congrArg (Except.map fun slots => (slot, slots)) h

theorem Slots.close_some {f : Field} {fs : List Field} {c : f.Content} {slots : Slots fs}
    {r : Record fs} (h : Slots.close fs slots = .ok r) :
    Slots.close (f :: fs) (some c, slots) = .ok (c, r) :=
  congrArg (Except.map fun record => (c, record)) h

/-- An empty slot is closed by what stands for an absent field. -/
theorem Slots.close_none {f : Field} {fs : List Field} {c : f.Content} {slots : Slots fs}
    {r : Record fs} (habsent : f.absent? = some c) (h : Slots.close fs slots = .ok r) :
    Slots.close (f :: fs) (none, slots) = .ok (c, r) := by
  cases f with
  | required => cases habsent
  | optional =>
    obtain rfl := Option.some.inj habsent
    exact congrArg (Except.map fun record => (none, record)) h
  | defaulted =>
    obtain rfl := Option.some.inj habsent
    exact congrArg (Except.map fun record => ([], record)) h

namespace Decode

/-- A field, decoded from its value. -/
def content (f : Field) (j : Json) : Except DecodeError f.Content :=
  f.decode (isNull j) fun s => shaped s j

/-- The members of a name. -/
def named (name : String) (members : List (String × Json)) : List (String × Json) :=
  members.filter fun m => m.1 == name

/-- The members are still to come, and with them the slots become the final ones. -/
def Fills : (fs : List Field) → Slots fs → Slots fs → List (String × Json) → Prop
  | [], _, _, _ => True
  | f :: fs, (slot, slots), (final, finals), members =>
    ((slot = final ∧ named f.name members = []) ∨
      (slot = none ∧ ∃ j c, named f.name members = [(f.name, j)] ∧ content f j = .ok c ∧
        final = some c)) ∧
      Fills fs slots finals members

variable {fs : List Field} {slots finals : Slots fs} {members members' : List (String × Json)}

theorem named_eq_nil {name : String} : named name members = [] ↔ name ∉ members.map Prod.fst := by
  rw [named, List.filter_eq_nil_iff, List.mem_map]
  constructor
  · rintro h ⟨m, hm, hname⟩
    exact h m hm (beq_iff_eq.mpr hname)
  · exact fun h m hm hname => h ⟨m, hm, beq_iff_eq.mp hname⟩

theorem named_cons (m : String × Json) (name : String) :
    named name (m :: members) =
      if m.1 = name then m :: named name members else named name members := by
  simp [named, List.filter_cons]

/-- Only the members of each field matter, in any order. -/
theorem Fills.congr (h : ∀ f ∈ fs, (named f.name members).Perm (named f.name members'))
    (hfills : Fills fs slots finals members) : Fills fs slots finals members' := by
  induction fs with
  | nil => trivial
  | cons f fs ih =>
    obtain ⟨slot, slots⟩ := slots
    obtain ⟨final, finals⟩ := finals
    obtain ⟨hslot, hslots⟩ := hfills
    have hf := h f List.mem_cons_self
    refine ⟨?_, ih (fun g hg => h g (List.mem_cons_of_mem f hg)) hslots⟩
    rcases hslot with ⟨hfinal, hnone⟩ | ⟨hempty, j, c, hone, hc, hfinal⟩
    · rw [hnone] at hf
      exact .inl ⟨hfinal, hf.nil_eq.symm⟩
    · rw [hone] at hf
      exact .inr ⟨hempty, j, c, List.perm_singleton.mp hf.symm, hc, hfinal⟩

theorem Fills.perm (h : members.Perm members') (hfills : Fills fs slots finals members) :
    Fills fs slots finals members' :=
  hfills.congr fun _ _ => h.filter _

/-- Members that no slot is for do not matter. -/
theorem Fills.append {foreign : List (String × Json)}
    (h : ∀ m ∈ foreign, m.1 ∉ fs.map Field.name) (hfills : Fills fs slots finals members) :
    Fills fs slots finals (members ++ foreign) := by
  refine hfills.congr fun f hf => ?_
  have hnone : named f.name foreign = [] := by
    rw [named_eq_nil]
    intro hmem
    obtain ⟨m, hm, hname⟩ := List.mem_map.mp hmem
    exact h m hm (hname ▸ List.mem_map_of_mem hf)
  have happend : named f.name (members ++ foreign) = named f.name members ++ named f.name foreign :=
    List.filter_append ..
  rw [happend, hnone, List.append_nil]

theorem Fills.cons {m : String × Json} (h : m.1 ∉ fs.map Field.name)
    (hfills : Fills fs slots finals members) : Fills fs slots finals (m :: members) := by
  refine hfills.congr fun f hf => ?_
  have hname : m.1 ≠ f.name := fun hname => h (hname.symm ▸ List.mem_map_of_mem hf)
  rw [named_cons, if_neg hname]

theorem Fills.of_cons {m : String × Json} (h : m.1 ∉ fs.map Field.name)
    (hfills : Fills fs slots finals (m :: members)) : Fills fs slots finals members := by
  refine hfills.congr fun f hf => ?_
  have hname : m.1 ≠ f.name := fun hname => h (hname.symm ▸ List.mem_map_of_mem hf)
  rw [named_cons, if_neg hname]

/-- The member of a field before the members of the fields behind it. -/
theorem Fills.present {f : Field} {j : Json} {c : f.Content} (hc : content f j = .ok c)
    (hother : f.name ∉ members.map Prod.fst) (hfills : Fills fs slots finals members)
    (hdistinct : f.name ∉ fs.map Field.name) :
    Fills (f :: fs) (none, slots) (some c, finals) ((f.name, j) :: members) := by
  refine ⟨.inr ⟨rfl, j, c, ?_, hc, rfl⟩, hfills.cons hdistinct⟩
  rw [named_cons, if_pos rfl, named_eq_nil.mpr hother]

theorem Fills.absent {f : Field} (hother : f.name ∉ members.map Prod.fst)
    (hfills : Fills fs slots finals members) :
    Fills (f :: fs) (none, slots) (none, finals) members :=
  ⟨.inl ⟨rfl, named_eq_nil.mpr hother⟩, hfills⟩

/-- One member keeps the invariant. -/
theorem Fills.fill {name : String} {j : Json} (hdistinct : (fs.map Field.name).Nodup)
    (hfills : Fills fs slots finals ((name, j) :: members)) :
    ∃ next, Slots.fill name (fun f => content f j) fs slots = .ok next ∧
      Fills fs next finals members := by
  induction fs with
  | nil => exact ⟨(), rfl, trivial⟩
  | cons f fs ih =>
    obtain ⟨slot, slots⟩ := slots
    obtain ⟨final, finals⟩ := finals
    obtain ⟨hslot, hslots⟩ := hfills
    rw [List.map_cons, List.nodup_cons] at hdistinct
    rw [named_cons] at hslot
    by_cases hname : f.name = name
    · subst hname
      rw [if_pos rfl] at hslot
      rcases hslot with ⟨-, hnone⟩ | ⟨rfl, j', c, hone, hc, rfl⟩
      · -- No member is to come for a slot that is final.
        cases hnone
      · obtain ⟨hj, hrest⟩ := List.cons.inj hone
        obtain ⟨-, rfl⟩ := Prod.mk.inj hj
        refine ⟨(some c, slots), ?_, .inl ⟨rfl, hrest⟩, hslots.of_cons hdistinct.1⟩
        exact Slots.fill_empty hc
    · -- The slot is for another name, and so is what is still to come for it.
      rw [if_neg fun h => hname h.symm] at hslot
      obtain ⟨next, hfill, hnext⟩ := ih hdistinct.2 hslots
      exact ⟨(slot, next), Slots.fill_other hname hfill, hslot, hnext⟩

/-- Without members to come all slots are final. -/
theorem Fills.eq_of_nil (hfills : Fills fs slots finals []) : slots = finals := by
  induction fs with
  | nil => rfl
  | cons f fs ih =>
    obtain ⟨slot, slots⟩ := slots
    obtain ⟨final, finals⟩ := finals
    obtain ⟨⟨rfl, -⟩ | ⟨-, j, c, hone, -⟩, hslots⟩ := hfills
    · rw [ih hslots]
    · cases hone

/-- **All members together fill the slots with the final values.** -/
theorem Fills.ofMembers (hdistinct : (fs.map Field.name).Nodup)
    (hfills : Fills fs slots finals members) : ofMembers fs slots members = .ok finals := by
  induction members generalizing slots with
  | nil => rw [Decode.ofMembers, hfills.eq_of_nil]
  | cons m members ih =>
    obtain ⟨name, j⟩ := m
    obtain ⟨next, hfill, hnext⟩ := hfills.fill hdistinct
    have hfill' : Slots.fill name (fun f => f.decode (isNull j) fun s => shaped s j) fs slots =
        .ok next := hfill
    rw [Decode.ofMembers, hfill']
    exact ih hnext

/-! ## Records -/

/-- The members are those of the fields, and the slots that they fill are closed to the record. -/
structure Gives (fs : List Field) (r : Record fs) (members : List (String × Json)) : Prop where
  names : ∀ m ∈ members, m.1 ∈ fs.map Field.name
  slots : ∃ finals, Fills fs (.empty fs) finals members ∧ Slots.close fs finals = .ok r

variable {r : Record fs} {f : Field} {c : f.Content}

theorem gives_nil : Gives [] () [] :=
  ⟨fun _ hm => absurd hm List.not_mem_nil, (), trivial, rfl⟩

theorem Gives.not_mem (h : Gives fs r members) (hname : f.name ∉ fs.map Field.name) :
    f.name ∉ members.map Prod.fst := by
  intro hmem
  obtain ⟨m, hm, heq⟩ := List.mem_map.mp hmem
  exact hname (heq ▸ h.names m hm)

/-- A field that is there is decoded from its member. -/
theorem Gives.present {j : Json} (hc : content f j = .ok c) (h : Gives fs r members)
    (hname : f.name ∉ fs.map Field.name) : Gives (f :: fs) (c, r) ((f.name, j) :: members) := by
  obtain ⟨finals, hfills, hclose⟩ := h.slots
  refine ⟨fun m hm => ?_, _, hfills.present hc (h.not_mem hname) hname, Slots.close_some hclose⟩
  rcases List.mem_cons.mp hm with rfl | hm
  · exact List.mem_cons_self
  · exact List.mem_cons_of_mem f.name (h.names m hm)

/-- A field that may be absent can be left out. -/
theorem Gives.absent (habsent : f.absent? = some c) (h : Gives fs r members)
    (hname : f.name ∉ fs.map Field.name) : Gives (f :: fs) (c, r) members := by
  obtain ⟨finals, hfills, hclose⟩ := h.slots
  exact ⟨fun m hm => List.mem_cons_of_mem f.name (h.names m hm), _,
    hfills.absent (h.not_mem hname), Slots.close_none habsent hclose⟩

/-- **Members give the record** in any order and among any other members. -/
theorem Gives.ofMembers {foreign js : List (String × Json)} (h : Gives fs r members)
    (hdistinct : (fs.map Field.name).Nodup) (hother : ∀ m ∈ foreign, m.1 ∉ fs.map Field.name)
    (horder : js.Perm (members ++ foreign)) :
    ∃ finals, Decode.ofMembers fs (.empty fs) js = .ok finals ∧ Slots.close fs finals = .ok r := by
  obtain ⟨finals, hfills, hclose⟩ := h.slots
  exact ⟨finals, ((hfills.append hother).perm horder.symm).ofMembers hdistinct, hclose⟩

/-! ## The kind -/

theorem entry_tag (k : NodeKind) : entry NodeKind.table (.string k.tag) = .ok k := by
  cases k <;> rfl

theorem kindOf_some {k : NodeKind} (h : named "kind" members = []) :
    kindOf (some k) members = .ok k := by
  induction members with
  | nil => rfl
  | cons m members ih =>
    rw [named_cons] at h
    split at h
    · cases h
    · rename_i hname
      rw [kindOf, if_neg hname, ih h]

/-- The kind is found wherever it stands. -/
theorem kindOf_none {k : NodeKind} (h : named "kind" members = [("kind", .string k.tag)]) :
    kindOf none members = .ok k := by
  induction members with
  | nil => cases h
  | cons m members ih =>
    obtain ⟨name, j⟩ := m
    rw [named_cons] at h
    split at h
    · rename_i hname
      obtain ⟨hm, hrest⟩ := List.cons.inj h
      obtain ⟨-, rfl⟩ := Prod.mk.inj hm
      rw [kindOf, if_pos hname, entry_tag]
      exact kindOf_some hrest
    · rename_i hname
      rw [kindOf, if_neg hname, ih h]

end Decode

end EntityQuery
