import EntityQuery.Proofs.Json.Double
import EntityQuery.Proofs.Json.Members
import EntityQuery.Proofs.Numeric.Decimal
import EntityQuery.Proofs.Syntax.Encoding
import EntityQuery.Proofs.Syntax.Slots
import Mathlib.Data.List.Permutation

/-!
# Decoding every encoding

Whatever encoding of a tree is decoded, the result is the tree, with each float as it is read and no
sign before a zero. The proof follows the encodings: members that may come in any order fill the
slots of the fields, and a literal is found among its members.
-/

namespace EntityQuery

open Json (Source)

/-! ## What is decoded -/

/-- A float as it is read, and a decimal without the sign of a zero. -/
def Literal.reread : Literal → Literal
  | .double x => .double (Json.reread x)
  | .decimal d => .decimal d.positiveZero
  | l => l

def ExpandItem.mapLiterals (f : Literal → Literal) (i : ExpandItem) : ExpandItem :=
  ⟨i.path.mapLiterals f, i.options.map (Node.mapLiterals f)⟩

def Shape.mapLiterals (f : Literal → Literal) : (s : Shape) → s.Carrier → s.Carrier
  | .literal, l => f l
  | .node, n => n.mapLiterals f
  | .expandItem, i => i.mapLiterals f
  | .list item, as => as.map (item.mapLiterals f)
  | .text, a => a
  | .binaryOperator, a => a
  | .unaryOperator, a => a
  | .direction, a => a

def Record.mapLiterals (f : Literal → Literal) : (fs : List Field) → Record fs → Record fs
  | [], () => ()
  | .required _ shape :: fs, (a, r) => (shape.mapLiterals f a, mapLiterals f fs r)
  | .optional _ shape :: fs, (a?, r) => (Option.map (shape.mapLiterals f) a?, mapLiterals f fs r)
  | .defaulted _ item :: fs, (as, r) => (List.map (item.mapLiterals f) as, mapLiterals f fs r)

namespace Node

theorem listMapLiterals_eq (f : Literal → Literal) (ns : List Node) :
    listMapLiterals f ns = ns.map (mapLiterals f) := by
  induction ns with
  | nil => rfl
  | cons n ns ih => rw [listMapLiterals, ih, List.map_cons]

theorem optionMapLiterals_eq (f : Literal → Literal) (n? : Option Node) :
    optionMapLiterals f n? = n?.map (mapLiterals f) := by
  cases n? <;> rfl

theorem itemsMapLiterals_eq (f : Literal → Literal) (items : List ExpandItem) :
    itemsMapLiterals f items = items.map (ExpandItem.mapLiterals f) := by
  induction items with
  | nil => rfl
  | cons i items ih =>
    obtain ⟨path, options?⟩ := i
    rw [itemsMapLiterals, ih, optionMapLiterals_eq, List.map_cons]
    rfl

/-- The literals of a node are those of its fields. -/
theorem build_mapLiterals (f : Literal → Literal) (n : Node) :
    n.kind.build (n.record.mapLiterals f) = n.mapLiterals f := by
  cases n with
  | options q =>
    cases q
    simp only [mapLiterals, optionMapLiterals_eq]
    rfl
  | orderKey expression direction? => cases direction? <;> rfl
  | _ =>
    simp only [mapLiterals, optionMapLiterals_eq, listMapLiterals_eq, itemsMapLiterals_eq]
    rfl

end Node

/-! ## Literals -/

namespace Decode

theorem choice_tag (t : LiteralType) : choice LiteralType.table (.string t.tag) = .ok t := by
  cases t <;> rfl

/-- The value of a literal is decoded as the literal, in the way that its type asks for. -/
theorem literalOf_payload {l : Literal} {v : Json} (hfinite : l.IsFinite)
    (h : l.payload? = some v) :
    ∃ j, (Json.Style.interchange.source v).json? = some j ∧ literalOf l.type j = .ok l.reread := by
  cases l with
  | null => cases h
  | boolean b =>
    obtain rfl := Option.some.inj h
    exact ⟨_, rfl, rfl⟩
  | integer n =>
    obtain rfl := Option.some.inj h
    refine ⟨_, Json.Numeral.json?_ofInt n, ?_⟩
    have hrange : Int64.minValue.toInt ≤ n.toInt ∧ n.toInt ≤ Int64.maxValue.toInt :=
      ⟨n.minValue_le_toInt, n.toInt_le⟩
    show (integer (.int n.toInt)).map Literal.integer = _
    rw [integer, if_pos hrange, Int64.ofInt_toInt]
    rfl
  | double x =>
    -- Only a finite double has a payload.
    have hx := hfinite x rfl
    rw [Literal.payload?, if_pos hx] at h
    obtain rfl := Option.some.inj h
    exact ⟨_, Json.json?_source_double hx, rfl⟩
  | decimal d =>
    obtain rfl := Option.some.inj h
    refine ⟨_, rfl, ?_⟩
    show (decimal (.string d.toText)).map Literal.decimal = _
    rw [decimal, Decimal.ofText?_toText]
    rfl
  | string s | dateTime s | date s | guid s =>
    obtain rfl := Option.some.inj h
    exact ⟨_, rfl, rfl⟩

/-- Type and value of a literal are decoded in either order. -/
theorem literalOfMembers_perm {l : Literal} {t : LiteralType} {j : Json}
    {js : List (String × Json)} (h : literalOf t j = .ok l)
    (horder : js.Perm [("type", .string t.tag), ("value", j)]) : literalOfMembers js = .ok l := by
  have horders := List.mem_permutations.mpr horder
  -- Two members have two orders.
  have hjs : js = [("type", .string t.tag), ("value", j)] ∨
      js = [("value", j), ("type", .string t.tag)] := by
    simpa [List.permutations] using horders
  rcases hjs with rfl | rfl
  · rw [literalOfMembers]
    rw [if_pos rfl, choice_tag]
    show (if "value" = "type" then .error (.duplicateField "value")
      else literalOf t j >>= fun l => closing l []) = Except.ok l
    rw [if_neg (by decide), h]
    rfl
  · rw [literalOfMembers]
    rw [if_neg (by decide), if_pos rfl, choice_tag]
    show (literalOf t j >>= fun l => closing l []) = _
    rw [h]
    rfl

theorem literalOfMembers_of_encodes {l : Literal} {known : List (String × Source)}
    (h : l.Encodes known) :
    ∃ js, Source.membersJson? known = some js ∧ (∀ m ∈ js, m.1 = "type" ∨ m.1 = "value") ∧
      ∀ js', js'.Perm js → literalOfMembers js' = .ok l.reread := by
  cases h with
  | null =>
    exact ⟨_, rfl, by simp, fun js' horder => literalOfMembers_perm (t := .null) rfl horder⟩
  | plain hfinite =>
    cases hpayload : l.payload? with
    | none =>
      obtain rfl : l = .null := by
        cases l <;> first | rfl | cases hpayload
      refine ⟨_, rfl, by simp, fun js' horder => ?_⟩
      rw [List.perm_singleton.mp horder]
      rfl
    | some v =>
      obtain ⟨j, hj, hdecode⟩ := literalOf_payload hfinite hpayload
      exact ⟨_, Source.membersJson?_cons rfl (Source.membersJson?_cons hj rfl), by simp,
        fun js' horder => literalOfMembers_perm hdecode horder⟩

/-! ## Names -/

theorem choice_binaryOperator (op : BinaryOperator) :
    choice BinaryOperator.table (.string op.name) = .ok op := by
  cases op with
  | comparison c => cases c <;> rfl
  | and => rfl
  | or => rfl

theorem choice_unaryOperator (op : UnaryOperator) :
    choice UnaryOperator.table (.string op.name) = .ok op := by
  cases op <;> rfl

theorem choice_direction (d : Direction) : choice Direction.table (.string d.name) = .ok d := by
  cases d <;> rfl

/-- The fields of a kind have different names, and none of them is the name of the kind itself. -/
theorem nodup_fields (k : NodeKind) : ("kind" :: k.fields.map Field.name).Nodup := by
  cases k <;> decide

end Decode

/-! ## Objects -/

namespace Decode

variable {known foreign js : List (String × Json)}

/-- Without the kind the members of an object are those of the fields and the foreign ones. -/
theorem filter_kind {α : Type} {names : List String} {a : α}
    {known foreign members : List (String × α)} (hkind : "kind" ∉ names)
    (hknown : ∀ m ∈ known, m.1 ∈ names) (hother : ∀ m ∈ foreign, m.1 ∉ "kind" :: names)
    (horder : members.Perm (("kind", a) :: (known ++ foreign))) :
    members.filter (fun m => m.1 == "kind") = [("kind", a)] ∧
      (members.filter fun m => m.1 != "kind").Perm (known ++ foreign) := by
  -- No other member has the name of the kind, so filtering takes off the kind alone.
  have hne : ∀ m ∈ known ++ foreign, m.1 ≠ "kind" := by
    intro m hm hname
    rcases List.mem_append.mp hm with hm | hm
    · exact hkind (hname ▸ hknown m hm)
    · exact hother m hm (hname ▸ List.mem_cons_self)
  have hnone : (known ++ foreign).filter (fun m => m.1 == "kind") = [] :=
    List.filter_eq_nil_iff.mpr fun m hm => by simpa using hne m hm
  have hall : (known ++ foreign).filter (fun m => m.1 != "kind") = known ++ foreign :=
    List.filter_eq_self.mpr fun m hm => by simpa using hne m hm
  constructor
  · have hfilter := horder.filter fun m => m.1 == "kind"
    rw [List.filter_cons, if_pos (by simp), hnone] at hfilter
    exact List.perm_singleton.mp hfilter
  · have hfilter := horder.filter fun m => m.1 != "kind"
    rwa [List.filter_cons, if_neg (by simp), hall] at hfilter

/-- A literal is found among members of other names. -/
theorem literal_object {l : Literal} (hknown : ∀ m ∈ known, m.1 = "type" ∨ m.1 = "value")
    (hother : ∀ m ∈ foreign, m.1 ∉ ["type", "value"])
    (hdecode : ∀ js, js.Perm known → literalOfMembers js = .ok l)
    (horder : js.Perm (known ++ foreign)) : literal (.object js) = .ok l := by
  refine hdecode _ ((horder.filter _).trans (.of_eq ?_))
  -- Only the members of the two names are looked at, and no foreign one is among them.
  rw [List.filter_append, List.filter_eq_self.mpr, List.filter_eq_nil_iff.mpr, List.append_nil]
  · intro m hm hname
    exact hother m hm (by simpa using hname)
  · intro m hm
    simpa using hknown m hm

theorem shaped_node_object (members : List (String × Json)) :
    shaped .node (.object members) = do
      let k ← kindOf none members
      let slots ← ofMembers k.fields (.empty _) members
      return k.build (← Slots.close _ slots) :=
  rfl

theorem shaped_expandItem_object (members : List (String × Json)) :
    shaped .expandItem (.object members) = do
      let slots ← ofMembers ExpandItem.fields (.empty _) members
      return ExpandItem.build (← Slots.close _ slots) :=
  rfl

theorem shaped_node {k : NodeKind} {r : Record k.fields} (hgives : Gives k.fields r known)
    (hother : ∀ m ∈ foreign, m.1 ∉ "kind" :: k.fields.map Field.name)
    (horder : js.Perm (("kind", .string k.tag) :: (known ++ foreign))) :
    shaped .node (.object js) = .ok (k.build r) := by
  obtain ⟨hkind, hdistinct⟩ := List.nodup_cons.mp (nodup_fields k)
  have hnamed : named "kind" js = [("kind", .string k.tag)] :=
    (filter_kind hkind hgives.names hother horder).1
  have hrest : ∀ m ∈ ("kind", Json.string k.tag) :: foreign, m.1 ∉ k.fields.map Field.name := by
    intro m hm hname
    rcases List.mem_cons.mp hm with rfl | hm
    · exact hkind hname
    · exact hother m hm (List.mem_cons_of_mem _ hname)
  -- Among the members of the fields the kind is one more foreign member.
  obtain ⟨finals, hslots, hclose⟩ :=
    hgives.ofMembers hdistinct hrest (horder.trans List.perm_middle.symm)
  rw [shaped_node_object, kindOf_none hnamed]
  show (ofMembers k.fields (.empty _) js >>= fun slots => _) = _
  rw [hslots]
  show (Slots.close _ finals >>= fun r => _) = _
  rw [hclose]
  rfl

theorem shaped_expandItem {r : Record ExpandItem.fields} (hgives : Gives ExpandItem.fields r known)
    (hother : ∀ m ∈ foreign, m.1 ∉ ExpandItem.fields.map Field.name)
    (horder : js.Perm (known ++ foreign)) :
    shaped .expandItem (.object js) = .ok (ExpandItem.build r) := by
  obtain ⟨finals, hslots, hclose⟩ := hgives.ofMembers (by decide) hother horder
  rw [shaped_expandItem_object, hslots]
  show (Slots.close _ finals >>= fun r => _) = _
  rw [hclose]
  rfl

end Decode

/-! ## Trees -/

open Decode

/-- Foreign members are read, and their names stay foreign. -/
theorem AreForeign.read {names : List String} {foreign : List (String × Source)}
    (h : AreForeign names foreign) :
    ∃ js, Source.membersJson? foreign = some js ∧ ∀ m ∈ js, m.1 ∉ names := by
  obtain ⟨js, hjs⟩ := Source.isSome_membersJson? fun m hm => (h m hm).2
  exact ⟨js, hjs, (Source.forall_mem_membersJson? (· ∉ names) hjs).mpr fun m hm => (h m hm).1⟩

theorem content_present {name : String} {shape : Shape} {a : shape.Carrier} {j : Json}
    (hnull : isNull j = false) (h : shaped shape j = .ok a) :
    content (.optional name shape) j = .ok (some a) := by
  show (if isNull j then .ok none else (shaped shape j).map some) = Except.ok (some a)
  rw [hnull, h]
  rfl

theorem content_items {name : String} {item : Shape} {as : List item.Carrier} {js : List Json}
    (h : listOf item js = .ok as) : content (.defaulted name item) (.array js) = .ok as :=
  h

mutual

theorem Shape.Encodes.decode : {s : Shape} → {a : s.Carrier} → {src : Source} →
    s.Encodes a src →
      ∃ j, src.json? = some j ∧ isNull j = false ∧ shaped s j = .ok (s.mapLiterals Literal.reread a)
  | _, _, _, .text a => ⟨_, rfl, rfl, rfl⟩
  | _, _, _, .binaryOperator op => ⟨_, rfl, rfl, choice_binaryOperator op⟩
  | _, _, _, .unaryOperator op => ⟨_, rfl, rfl, choice_unaryOperator op⟩
  | _, _, _, .direction d => ⟨_, rfl, rfl, choice_direction d⟩
  | _, _, _, .literal h hforeign horder => by
    obtain ⟨known, hknown, hnames, hdecode⟩ := literalOfMembers_of_encodes h
    obtain ⟨foreign, hread, hother⟩ := hforeign.read
    obtain ⟨js, hjs, hperm⟩ :=
      Source.membersJson?_perm horder (Source.membersJson?_append hknown hread)
    exact ⟨.object js, Source.json?_object hjs, rfl,
      literal_object hnames hother hdecode hperm⟩
  | _, _, _, .node h hforeign horder => by
    obtain ⟨known, hknown, hgives⟩ := h.decode (nodup_fields _).of_cons
    obtain ⟨foreign, hread, hother⟩ := hforeign.read
    obtain ⟨js, hjs, hperm⟩ := Source.membersJson?_perm horder
      (Source.membersJson?_cons rfl (Source.membersJson?_append hknown hread))
    refine ⟨.object js, Source.json?_object hjs, rfl, ?_⟩
    rw [shaped_node hgives hother hperm, Node.build_mapLiterals]
    rfl
  | _, _, _, .expandItem h hforeign horder => by
    obtain ⟨known, hknown, hgives⟩ := h.decode (by decide)
    obtain ⟨foreign, hread, hother⟩ := hforeign.read
    obtain ⟨js, hjs, hperm⟩ :=
      Source.membersJson?_perm horder (Source.membersJson?_append hknown hread)
    exact ⟨.object js, Source.json?_object hjs, rfl, shaped_expandItem hgives hother hperm⟩
  | _, _, _, .list h => by
    obtain ⟨js, hjs, hdecode⟩ := h.decode
    exact ⟨.array js, Source.json?_array hjs, rfl, hdecode⟩

theorem ItemsEncode.decode : {item : Shape} → {as : List item.Carrier} → {ss : List Source} →
    ItemsEncode item as ss →
      ∃ js, Source.itemsJson? ss = some js ∧
        listOf item js = .ok (as.map (item.mapLiterals Literal.reread))
  | _, _, _, .nil => ⟨[], rfl, rfl⟩
  | _, _, _, .cons h hrest => by
    obtain ⟨j, hj, -, hdecode⟩ := h.decode
    obtain ⟨js, hjs, hdecodes⟩ := hrest.decode
    refine ⟨j :: js, by rw [Source.itemsJson?, hj, hjs]; rfl, ?_⟩
    rw [listOf, hdecode, hdecodes]
    rfl

theorem FieldsEncode.decode : {fs : List Field} → {r : Record fs} →
    {known : List (String × Source)} → FieldsEncode fs r known → (fs.map Field.name).Nodup →
      ∃ js, Source.membersJson? known = some js ∧ Gives fs (r.mapLiterals Literal.reread) js
  | _, _, _, .nil, _ => ⟨[], rfl, gives_nil⟩
  | _, _, _, .required h hrest, hdistinct => by
    obtain ⟨hname, hrestDistinct⟩ := List.nodup_cons.mp hdistinct
    obtain ⟨j, hj, -, hdecode⟩ := h.decode
    obtain ⟨js, hjs, hgives⟩ := hrest.decode hrestDistinct
    exact ⟨_, Source.membersJson?_cons hj hjs, hgives.present hdecode hname⟩
  | _, _, _, .present h hrest, hdistinct => by
    obtain ⟨hname, hrestDistinct⟩ := List.nodup_cons.mp hdistinct
    obtain ⟨j, hj, hnull, hdecode⟩ := h.decode
    obtain ⟨js, hjs, hgives⟩ := hrest.decode hrestDistinct
    exact ⟨_, Source.membersJson?_cons hj hjs,
      hgives.present (content_present hnull hdecode) hname⟩
  | _, _, _, .null hrest, hdistinct => by
    obtain ⟨hname, hrestDistinct⟩ := List.nodup_cons.mp hdistinct
    obtain ⟨js, hjs, hgives⟩ := hrest.decode hrestDistinct
    exact ⟨_, Source.membersJson?_cons rfl hjs, hgives.present rfl hname⟩
  | _, _, _, .leftOut hrest, hdistinct => by
    obtain ⟨hname, hrestDistinct⟩ := List.nodup_cons.mp hdistinct
    obtain ⟨js, hjs, hgives⟩ := hrest.decode hrestDistinct
    exact ⟨js, hjs, hgives.absent rfl hname⟩
  | _, _, _, .items h hrest, hdistinct => by
    obtain ⟨hname, hrestDistinct⟩ := List.nodup_cons.mp hdistinct
    obtain ⟨items, hitems, hdecode⟩ := h.decode
    obtain ⟨js, hjs, hgives⟩ := hrest.decode hrestDistinct
    exact ⟨_, Source.membersJson?_cons (Source.json?_array hitems) hjs,
      hgives.present (content_items hdecode) hname⟩
  | _, _, _, .noItems hrest, hdistinct => by
    obtain ⟨hname, hrestDistinct⟩ := List.nodup_cons.mp hdistinct
    obtain ⟨js, hjs, hgives⟩ := hrest.decode hrestDistinct
    exact ⟨js, hjs, hgives.absent rfl hname⟩

end

end EntityQuery
