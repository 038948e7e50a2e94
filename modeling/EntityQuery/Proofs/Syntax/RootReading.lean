import EntityQuery.Proofs.Json.Members
import EntityQuery.Proofs.Json.Reading
import EntityQuery.Proofs.Syntax.Decoding
import EntityQuery.Syntax.Reader

/-!
# Reading the root of a query tree

The members of the root are taken off the text one by one, and its kind is looked at when it is met.
Where the kind stands makes no difference to a text that spells an object of a known kind.
-/

namespace EntityQuery.Node.Text

open Json (IsBlank TextSpells MembersSpell Source)

/-! ## Parts of a member -/

theorem wellFormed_some_bind {α β : Type} (a : α) (f : α → Except ReadError β) :
    (wellFormed (some a) >>= f) = f a :=
  rfl

theorem decoded_ok_bind {α β : Type} (a : α) (f : α → Except ReadError β) :
    (decoded (.ok a) >>= f) = f a :=
  rfl

theorem ok_bind {α β : Type} (a : α) (f : α → Except ReadError β) : (Except.ok a >>= f) = f a :=
  rfl

theorem afterColon_append {w : List Char} (hw : IsBlank w) (rest : List Char) :
    afterColon (w ++ ':' :: rest) = .ok rest := by
  rw [afterColon, Json.skipSpace_append_cons hw (by decide)]
  rfl

theorem takeKind_append {k : NodeKind} {w ns : List Char} (hw : IsBlank w)
    (h : TextSpells k.tag.toList ns) (rest : List Char) :
    takeKind (w ++ '"' :: (ns ++ '"' :: rest)) = .ok (k, rest) := by
  have hselect : Decode.select NodeKind.table k.tag = .ok k := by
    cases k <;> rfl
  rw [takeKind, Json.skipSpace_append_cons hw (by decide)]
  show (wellFormed (Json.readText? (ns ++ '"' :: rest)) >>= fun x =>
    decoded (Decode.select NodeKind.table (String.ofList x.1)) >>= fun k => .ok (k, x.2)) = _
  rw [h.read rest, wellFormed_some_bind, String.ofList_toList, hselect]
  rfl

theorem takeValue?_append {s : Source} {j : Json} {w cs rest : List Char} (hw : IsBlank w)
    (h : s.Spells cs) (hj : s.json? = some j) (hdepth : s.depth ≤ innerDepth)
    (hrest : Json.EndsNumber rest) :
    Json.takeValue? innerDepth (w ++ (cs ++ rest)) = some (j, rest) := by
  have hlength : 2 * cs.length ≤ 2 * (w ++ (cs ++ rest)).length + 2 := by
    simp only [List.length_append]
    omega
  rw [Json.takeValue?, Json.readValue?_blank hw, Json.readValue?_append _ h hlength hdepth hrest]
  simp only [Option.bind_eq_bind, Option.bind_some, hj]
  rfl

/-! ## Members -/

/-- What follows the kind: a comma and further members, or the closing brace. -/
def afterKind (fuel : ℕ) (k : NodeKind) (r : List Char) : Except ReadError Members :=
  match Json.skipSpace r with
  | ',' :: r => takeMembers fuel (some k) r
  | '\x7d' :: r => return ⟨some k, [], r⟩
  | _ => .error .malformed

/-- What follows another member. -/
def afterOther (fuel : ℕ) (kind? : Option NodeKind) (name : String) (value : Json)
    (r : List Char) : Except ReadError Members :=
  match Json.skipSpace r with
  | ',' :: r => do
    let m ← takeMembers fuel kind? r
    return { m with others := (name, value) :: m.others }
  | '\x7d' :: r => return ⟨kind?, [(name, value)], r⟩
  | _ => .error .malformed

variable {w : List Char}

theorem afterKind_last (hw : IsBlank w) (fuel : ℕ) (k : NodeKind) (rest : List Char) :
    afterKind fuel k (w ++ '\x7d' :: rest) = .ok ⟨some k, [], rest⟩ := by
  rw [afterKind, Json.skipSpace_append_cons hw (by decide)]
  rfl

theorem afterKind_further (hw : IsBlank w) (fuel : ℕ) (k : NodeKind) (rest : List Char) :
    afterKind fuel k (w ++ ',' :: rest) = takeMembers fuel (some k) rest := by
  rw [afterKind, Json.skipSpace_append_cons hw (by decide)]
  rfl

theorem afterOther_last (hw : IsBlank w) (fuel : ℕ) (kind? : Option NodeKind) (name : String)
    (value : Json) (rest : List Char) :
    afterOther fuel kind? name value (w ++ '\x7d' :: rest) =
      .ok ⟨kind?, [(name, value)], rest⟩ := by
  rw [afterOther, Json.skipSpace_append_cons hw (by decide)]
  rfl

theorem afterOther_further (hw : IsBlank w) (fuel : ℕ) (kind? : Option NodeKind) (name : String)
    (value : Json) (rest : List Char) :
    afterOther fuel kind? name value (w ++ ',' :: rest) =
      (takeMembers fuel kind? rest).map fun m =>
        { m with others := (name, value) :: m.others } := by
  rw [afterOther, Json.skipSpace_append_cons hw (by decide)]
  rfl

theorem takeMembers_kind {k : NodeKind} {ns w₁ w₂ vs : List Char} (hw : IsBlank w)
    (hname : TextSpells "kind".toList ns) (hcolon : IsBlank w₁) (hvalue : IsBlank w₂)
    (h : TextSpells k.tag.toList vs) (fuel : ℕ) (rest : List Char) :
    takeMembers (fuel + 1) none
        (w ++ '"' :: (ns ++ '"' :: (w₁ ++ ':' :: (w₂ ++ '"' :: (vs ++ '"' :: rest))))) =
      afterKind fuel k rest := by
  rw [takeMembers, Json.skipSpace_append_cons hw (by decide), Json.readString?_append hname,
    wellFormed_some_bind]
  dsimp only
  rw [if_pos rfl, if_neg (by decide), afterColon_append hcolon, ok_bind,
    takeKind_append hvalue h, ok_bind]
  rfl

theorem takeMembers_other {name : String} {s : Source} {j : Json} {kind? : Option NodeKind}
    {ns w₁ w₂ cs rest : List Char} (hw : IsBlank w) (hne : name ≠ "kind")
    (hname : TextSpells name.toList ns) (hcolon : IsBlank w₁) (hvalue : IsBlank w₂)
    (h : s.Spells cs) (hj : s.json? = some j) (hdepth : s.depth ≤ innerDepth)
    (hrest : Json.EndsNumber rest) (fuel : ℕ) :
    takeMembers (fuel + 1) kind? (w ++ '"' :: (ns ++ '"' :: (w₁ ++ ':' :: (w₂ ++ (cs ++ rest))))) =
      afterOther fuel kind? name j rest := by
  rw [takeMembers, Json.skipSpace_append_cons hw (by decide), Json.readString?_append hname,
    wellFormed_some_bind]
  dsimp only
  rw [if_neg hne, afterColon_append hcolon, ok_bind, takeValue?_append hvalue h hj hdepth hrest,
    wellFormed_some_bind]
  rfl

/-- The kind has been met, or it is the one member of its name that is still to come. -/
def ComesWith (k : NodeKind) (kind? : Option NodeKind) (members : List (String × Source)) : Prop :=
  kind? = some k ∧ (∀ m ∈ members, m.1 ≠ "kind") ∨
    kind? = none ∧ members.filter (fun m => m.1 == "kind") = [("kind", .string k.tag)]

theorem ComesWith.of_kind {k : NodeKind} {kind? : Option NodeKind} {s : Source}
    {members : List (String × Source)} (h : ComesWith k kind? (("kind", s) :: members)) :
    kind? = none ∧ s = .string k.tag ∧ ComesWith k (some k) members := by
  rcases h with ⟨-, hnone⟩ | ⟨hkind, hone⟩
  · exact absurd rfl (hnone _ List.mem_cons_self)
  · rw [List.filter_cons, if_pos (by simp)] at hone
    obtain ⟨hs, hrest⟩ := List.cons.inj hone
    refine ⟨hkind, (Prod.mk.inj hs).2, .inl ⟨rfl, fun m hm hname => ?_⟩⟩
    exact List.filter_eq_nil_iff.mp hrest m hm (by simpa using hname)

theorem ComesWith.of_other {k : NodeKind} {kind? : Option NodeKind} {name : String} {s : Source}
    {members : List (String × Source)} (hne : name ≠ "kind")
    (h : ComesWith k kind? ((name, s) :: members)) : ComesWith k kind? members := by
  refine h.imp (fun ⟨hkind, hnone⟩ => ⟨hkind, fun m hm => hnone m (List.mem_cons_of_mem _ hm)⟩)
    fun ⟨hkind, hone⟩ => ⟨hkind, ?_⟩
  rwa [List.filter_cons, if_neg (by simpa using hne)] at hone

theorem ComesWith.eq_of_nil {k : NodeKind} {kind? : Option NodeKind} (h : ComesWith k kind? []) :
    kind? = some k := by
  rcases h with ⟨hkind, -⟩ | ⟨-, hone⟩
  · exact hkind
  · cases hone

/-- **The members of the root are read** with their kind apart from the others, wherever it is. -/
theorem takeMembers_append {k : NodeKind} {kind? : Option NodeKind}
    {members : List (String × Source)} {others : List (String × Json)} {cs : List Char}
    (h : MembersSpell members cs) (hdepth : Json.membersDepth members ≤ innerDepth)
    (hkind : ComesWith k kind? members)
    (hothers : Source.membersJson? (members.filter fun m => m.1 != "kind") = some others)
    (fuel : ℕ) (hfuel : cs.length ≤ fuel) (rest : List Char) :
    takeMembers fuel kind? (cs ++ '\x7d' :: rest) = .ok ⟨some k, others, rest⟩ := by
  -- By induction on the fuel; whether the kind has been met is part of the invariant.
  induction fuel generalizing kind? members others cs with
  | zero =>
    obtain ⟨w, cs', rfl, -⟩ := h.strip
    simp at hfuel
  | succ fuel ih =>
    cases h with
    | @last name s w ns w₁ w₂ cs w₃ hw hname hcolon hvalue h hend =>
      simp only [List.append_assoc, List.cons_append]
      by_cases hne : name = "kind"
      · subst hne
        obtain ⟨rfl, rfl, -⟩ := hkind.of_kind
        obtain rfl := Option.some.inj hothers
        -- The tag of a kind is spelled by a string only.
        cases h with
        | string h =>
          simp only [List.append_assoc, List.cons_append, List.nil_append]
          rw [takeMembers_kind hw hname hcolon hvalue h, afterKind_last hend]
      · obtain rfl := (hkind.of_other hne).eq_of_nil
        rw [List.filter_cons, if_pos (by simpa using hne)] at hothers
        obtain ⟨j, others, hj, hnil, rfl⟩ := Source.membersJson?_cons_eq_some.mp hothers
        obtain rfl := Option.some.inj hnil
        rw [takeMembers_other hw hne hname hcolon hvalue h hj
          (Nat.le_trans (Nat.le_max_left _ _) hdepth)
          (Json.endsNumber_append hend (by decide) rest), afterOther_last hend]
    | @cons name s members w ns w₁ w₂ cs w₃ cs' hw hname hcolon hvalue h hend hrest =>
      have hrestDepth : Json.membersDepth members ≤ innerDepth :=
        Nat.le_trans (Nat.le_max_right _ _) hdepth
      have hlength : cs'.length ≤ fuel := by
        simp only [List.length_append, List.length_cons] at hfuel
        omega
      simp only [List.append_assoc, List.cons_append]
      by_cases hne : name = "kind"
      · subst hne
        obtain ⟨rfl, rfl, hrestKind⟩ := hkind.of_kind
        have hrestRead := ih hrest hrestDepth hrestKind hothers hlength
        cases h with
        | string h =>
          simp only [List.append_assoc, List.cons_append, List.nil_append]
          rw [takeMembers_kind hw hname hcolon hvalue h, afterKind_further hend]
          exact hrestRead
      · rw [List.filter_cons, if_pos (by simpa using hne)] at hothers
        obtain ⟨j, others, hj, hrestOthers, rfl⟩ := Source.membersJson?_cons_eq_some.mp hothers
        have hrestRead := ih hrest hrestDepth (hkind.of_other hne) hrestOthers hlength
        rw [takeMembers_other hw hne hname hcolon hvalue h hj
          (Nat.le_trans (Nat.le_max_left _ _) hdepth)
          (Json.endsNumber_append hend (by decide) (cs' ++ '\x7d' :: rest)),
          afterOther_further hend, hrestRead]
        rfl

/-! ## The root -/

theorem takeObject_append {k : NodeKind} {members : List (String × Source)}
    {others : List (String × Json)} {finals : Slots k.fields} {r : Record k.fields} {cs : List Char}
    (h : MembersSpell members cs) (hdepth : Json.membersDepth members ≤ innerDepth)
    (hkind : ComesWith k none members)
    (hothers : Source.membersJson? (members.filter fun m => m.1 != "kind") = some others)
    (hslots : Decode.ofMembers k.fields (.empty _) others = .ok finals)
    (hclose : Slots.close _ finals = .ok r) (rest : List Char) :
    takeObject (cs ++ '\x7d' :: rest) = .ok (k.build r, rest) := by
  obtain ⟨w, cs', rfl, hw, h⟩ := h.strip
  have hlength : ('"' :: cs').length ≤ (('"' :: cs') ++ '\x7d' :: rest).length + 1 := by
    rw [List.length_append]
    omega
  have hmembers := takeMembers_append h hdepth hkind hothers _ hlength rest
  rw [takeObject, List.append_assoc, List.cons_append, Json.skipSpace_append_cons hw (by decide)]
  show (takeMembers _ none _ >>= fun m => _) = _
  rw [← List.cons_append, hmembers, ok_bind]
  dsimp only
  rw [hslots, decoded_ok_bind, hclose]
  rfl

theorem takeNode_append {w : List Char} (hw : IsBlank w) (cs : List Char) :
    takeNode (w ++ '\x7b' :: cs) = takeObject cs := by
  rw [takeNode, Json.skipSpace_append_cons hw (by decide)]
  rfl

end EntityQuery.Node.Text

namespace EntityQuery.Node

open Json (Source)

/-- **Every text that spells an encoding of a node is read as this node**, with each float as it is
read and no sign before a zero. -/
theorem ofText_of_encodes {n : Node} {src : Source} {text : String}
    (h : Shape.Encodes .node n src) (hspells : src.SpelledBy text)
    (hdepth : src.depth ≤ Text.maxDepth) : ofText text = .ok (n.mapLiterals Literal.reread) := by
  obtain ⟨w, cs, w', hw, hspells, hend, htext⟩ := hspells
  cases h with
  | @node n known foreign members hfields hforeign horder =>
    obtain ⟨hkind, hdistinct⟩ := List.nodup_cons.mp (Decode.nodup_fields n.kind)
    obtain ⟨knownJson, hknown, hgives⟩ := hfields.decode hdistinct
    obtain ⟨foreignJson, hread, hother⟩ := hforeign.read
    obtain ⟨js, hjs, hperm⟩ := Source.membersJson?_perm horder
      (Source.membersJson?_cons rfl (Source.membersJson?_append hknown hread))
    have hnames : ∀ m ∈ known, m.1 ∈ n.kind.fields.map Field.name :=
      (Source.forall_mem_membersJson? _ hknown).mp hgives.names
    have hcomes :=
      (Decode.filter_kind hkind hnames (fun m hm => (hforeign m hm).1) horder).1
    have hothers := (Decode.filter_kind hkind hgives.names hother hperm).2
    obtain ⟨finals, hslots, hclose⟩ := hgives.ofMembers hdistinct
      (fun m hm hname => hother m hm (List.mem_cons_of_mem _ hname)) hothers
    cases hspells with
    | noMembers =>
      -- An object without members has no kind.
      cases horder.nil_eq
    | @object _ cs hspells =>
      have hroot := Text.takeObject_append hspells (Nat.le_of_succ_le_succ hdepth)
        (.inr ⟨rfl, hcomes⟩) (Source.membersJson?_filter (fun name => name != "kind") hjs) hslots
        hclose w'
      rw [ofText, htext, List.cons_append, Text.takeNode_append hw, List.append_assoc,
        List.singleton_append, hroot, Text.ok_bind, build_mapLiterals]
      exact if_pos (Json.skipSpace_blank hend)

/-- Where null may stand for no node at all, a node is still read as itself. -/
theorem rootOfText_of_ofText {text : String} {n : Node} (h : ofText text = .ok n) :
    rootOfText text = .ok (some n) := by
  unfold rootOfText
  split
  · -- A node starts with a brace or a bracket.
    rename_i rest hnull
    rw [ofText, Text.takeNode, hnull] at h
    cases h
  · rw [h]
    rfl

end EntityQuery.Node
