import EntityQuery.Proofs.Json.Writing
import EntityQuery.Syntax.Decode
import EntityQuery.Syntax.Encode

/-!
# The encodings of query trees

A tree has many encodings. The members of an object may come in any order and among members that no
field is for, and what is absent may be left out or written as null.
-/

namespace EntityQuery

open Json (Source)

/-! ## Records -/

/-- The values of the fields of a node. -/
def Node.record : (n : Node) → Record n.kind.fields
  | .literal value => (value, ())
  | .identifier name => (name, ())
  | .call name args => (name, args, ())
  | .binary op left right => (op, left, right, ())
  | .unary op operand => (op, operand, ())
  | .options q => (q.resource, q.filter, q.orderBy, q.select, q.skip, q.top, q.expand, ())
  | .filter expression => (expression, ())
  | .orderBy items => (items, ())
  | .orderKey expression direction => (expression, direction, ())
  | .select items => (items, ())
  | .skip count => (count, ())
  | .top count => (count, ())
  | .expand items => (items, ())

def ExpandItem.record (i : ExpandItem) : Record ExpandItem.fields :=
  (i.path, i.options, ())

/-! ## Encodings -/

/-- Members of other names, with any values whose numbers are in range. -/
def AreForeign (names : List String) (members : List (String × Source)) : Prop :=
  ∀ m ∈ members, m.1 ∉ names ∧ m.2.json?.isSome = true

theorem areForeign_nil (names : List String) : AreForeign names [] :=
  fun _ h => absurd h List.not_mem_nil

/-- NaN and the infinities have no number. -/
def Literal.IsFinite (l : Literal) : Prop :=
  ∀ x, l = .double x → x.isFinite = true

/-- The members that a literal consists of. The null literal may have a value, which is null. -/
inductive Literal.Encodes : Literal → List (String × Source) → Prop where
  | plain {l : Literal} (hfinite : l.IsFinite) :
      Encodes l (("type", .string l.type.tag) ::
        (l.payload?.map fun v => ("value", Json.Style.interchange.source v)).toList)
  | null : Encodes .null [("type", .string LiteralType.null.tag), ("value", .null)]

mutual

/-- The tree encodes a value of this shape. -/
inductive Shape.Encodes : (s : Shape) → s.Carrier → Source → Prop where
  | text (a : String) : Shape.Encodes .text a (.string a)
  | literal {l : Literal} {known foreign members : List (String × Source)} (h : l.Encodes known)
      (hforeign : AreForeign ["type", "value"] foreign) (horder : members.Perm (known ++ foreign)) :
      Shape.Encodes .literal l (.object members)
  | binaryOperator (op : BinaryOperator) : Shape.Encodes .binaryOperator op (.string op.name)
  | unaryOperator (op : UnaryOperator) : Shape.Encodes .unaryOperator op (.string op.name)
  | direction (d : Direction) : Shape.Encodes .direction d (.string d.name)
  | node {n : Node} {known foreign members : List (String × Source)}
      (h : FieldsEncode n.kind.fields n.record known)
      (hforeign : AreForeign ("kind" :: n.kind.fields.map Field.name) foreign)
      (horder : members.Perm (("kind", .string n.kind.tag) :: (known ++ foreign))) :
      Shape.Encodes .node n (.object members)
  | expandItem {i : ExpandItem} {known foreign members : List (String × Source)}
      (h : FieldsEncode ExpandItem.fields i.record known)
      (hforeign : AreForeign (ExpandItem.fields.map Field.name) foreign)
      (horder : members.Perm (known ++ foreign)) : Shape.Encodes .expandItem i (.object members)
  | list {item : Shape} {as : List item.Carrier} {ss : List Source} (h : ItemsEncode item as ss) :
      Shape.Encodes (.list item) as (.array ss)

inductive ItemsEncode : (item : Shape) → List item.Carrier → List Source → Prop where
  | nil {item : Shape} : ItemsEncode item [] []
  | cons {item : Shape} {a : item.Carrier} {as : List item.Carrier} {s : Source} {ss : List Source}
      (h : item.Encodes a s) (hrest : ItemsEncode item as ss) : ItemsEncode item (a :: as) (s :: ss)

/-- The members that stand for the values of fields, in the order of the fields. -/
inductive FieldsEncode : (fs : List Field) → Record fs → List (String × Source) → Prop where
  | nil : FieldsEncode [] () []
  | required {name : String} {shape : Shape} {fs : List Field} {a : shape.Carrier} {r : Record fs}
      {s : Source} {known : List (String × Source)} (h : shape.Encodes a s)
      (hrest : FieldsEncode fs r known) :
      FieldsEncode (.required name shape :: fs) (a, r) ((name, s) :: known)
  | present {name : String} {shape : Shape} {fs : List Field} {a : shape.Carrier} {r : Record fs}
      {s : Source} {known : List (String × Source)} (h : shape.Encodes a s)
      (hrest : FieldsEncode fs r known) :
      FieldsEncode (.optional name shape :: fs) (some a, r) ((name, s) :: known)
  | null {name : String} {shape : Shape} {fs : List Field} {r : Record fs}
      {known : List (String × Source)} (hrest : FieldsEncode fs r known) :
      FieldsEncode (.optional name shape :: fs) (none, r) ((name, .null) :: known)
  | leftOut {name : String} {shape : Shape} {fs : List Field} {r : Record fs}
      {known : List (String × Source)} (hrest : FieldsEncode fs r known) :
      FieldsEncode (.optional name shape :: fs) (none, r) known
  | items {name : String} {item : Shape} {fs : List Field} {as : List item.Carrier} {r : Record fs}
      {ss : List Source} {known : List (String × Source)} (h : ItemsEncode item as ss)
      (hrest : FieldsEncode fs r known) :
      FieldsEncode (.defaulted name item :: fs) (as, r) ((name, .array ss) :: known)
  | noItems {name : String} {item : Shape} {fs : List Field} {r : Record fs}
      {known : List (String × Source)} (hrest : FieldsEncode fs r known) :
      FieldsEncode (.defaulted name item :: fs) ([], r) known

end

/-! ## Literals in a tree -/

namespace Node

mutual

def literals : Node → List Literal
  | .literal value => [value]
  | .identifier _ => []
  | .call _ args => listLiterals args
  | .binary _ left right => left.literals ++ right.literals
  | .unary _ operand => operand.literals
  | .options ⟨resource?, filter?, orderBy?, select?, skip?, top?, expand?⟩ =>
    optionLiterals resource? ++ optionLiterals filter? ++ optionLiterals orderBy? ++
      optionLiterals select? ++ optionLiterals skip? ++ optionLiterals top? ++
      optionLiterals expand?
  | .filter expression => optionLiterals expression
  | .orderBy items => listLiterals items
  | .orderKey expression _ => expression.literals
  | .select items => listLiterals items
  | .skip count => count.literals
  | .top count => count.literals
  | .expand items => itemsLiterals items

def listLiterals : List Node → List Literal
  | [] => []
  | n :: ns => n.literals ++ listLiterals ns

def optionLiterals : Option Node → List Literal
  | none => []
  | some n => n.literals

def itemsLiterals : List ExpandItem → List Literal
  | [] => []
  | ⟨path, options?⟩ :: items => path.literals ++ optionLiterals options? ++ itemsLiterals items

end

mutual

/-- The tree with other literals in the place of its own. -/
def mapLiterals (f : Literal → Literal) : Node → Node
  | .literal value => .literal (f value)
  | .identifier name => .identifier name
  | .call name args => .call name (listMapLiterals f args)
  | .binary op left right => .binary op (left.mapLiterals f) (right.mapLiterals f)
  | .unary op operand => .unary op (operand.mapLiterals f)
  | .options ⟨resource?, filter?, orderBy?, select?, skip?, top?, expand?⟩ =>
    .options ⟨optionMapLiterals f resource?, optionMapLiterals f filter?,
      optionMapLiterals f orderBy?, optionMapLiterals f select?, optionMapLiterals f skip?,
      optionMapLiterals f top?, optionMapLiterals f expand?⟩
  | .filter expression => .filter (optionMapLiterals f expression)
  | .orderBy items => .orderBy (listMapLiterals f items)
  | .orderKey expression direction => .orderKey (expression.mapLiterals f) direction
  | .select items => .select (listMapLiterals f items)
  | .skip count => .skip (count.mapLiterals f)
  | .top count => .top (count.mapLiterals f)
  | .expand items => .expand (itemsMapLiterals f items)

def listMapLiterals (f : Literal → Literal) : List Node → List Node
  | [] => []
  | n :: ns => n.mapLiterals f :: listMapLiterals f ns

def optionMapLiterals (f : Literal → Literal) : Option Node → Option Node
  | none => none
  | some n => some (n.mapLiterals f)

def itemsMapLiterals (f : Literal → Literal) : List ExpandItem → List ExpandItem
  | [] => []
  | ⟨path, options?⟩ :: items =>
    ⟨path.mapLiterals f, optionMapLiterals f options?⟩ :: itemsMapLiterals f items

end

def IsFinite (n : Node) : Prop :=
  ∀ l ∈ n.literals, l.IsFinite

end Node

/-! ## The encoding that is written -/

theorem encodes_literal {l : Literal} (h : l.IsFinite) :
    Shape.Encodes .literal l (Json.Style.interchange.source l.toJson) := by
  have hknown := Literal.Encodes.plain h
  refine .literal hknown (areForeign_nil _) ?_
  rw [List.append_nil]
  cases l <;> exact List.Perm.refl _

/-- Members in the order of the fields, with the kind before them. -/
theorem encodes_tagged {n : Node} {known : List (String × Source)}
    (h : FieldsEncode n.kind.fields n.record known) :
    Shape.Encodes .node n (.object (("kind", .string n.kind.tag) :: known)) :=
  .node h (areForeign_nil _) (by rw [List.append_nil])

theorem encodes_item {i : ExpandItem} {known : List (String × Source)}
    (h : FieldsEncode ExpandItem.fields i.record known) :
    Shape.Encodes .expandItem i (.object known) :=
  .expandItem h (areForeign_nil _) (by rw [List.append_nil])

namespace Node

open Json.Style (interchange)

mutual

/-- **The encoding that is written for a node is one of its encodings.** -/
theorem encodes_toJson : (n : Node) → n.IsFinite →
    Shape.Encodes .node n (interchange.source n.toJson)
  | .literal l, h => encodes_tagged (.required (encodes_literal (h l List.mem_cons_self)) .nil)
  | .identifier name, _ => encodes_tagged (.required (.text name) .nil)
  | .call name args, h =>
    encodes_tagged (.required (.text name) (.items (itemsEncode_list args h) .nil))
  | .binary op left right, h => by
    obtain ⟨hleft, hright⟩ := List.forall_mem_append.mp h
    exact encodes_tagged (.required (.binaryOperator op) (.required (encodes_toJson left hleft)
      (.required (encodes_toJson right hright) .nil)))
  | .unary op operand, h =>
    encodes_tagged (.required (.unaryOperator op) (.required (encodes_toJson operand h) .nil))
  | .options ⟨resource?, filter?, orderBy?, select?, skip?, top?, expand?⟩, h => by
    simp only [IsFinite, literals, List.forall_mem_append] at h
    obtain ⟨⟨⟨⟨⟨⟨hresource, hfilter⟩, horderBy⟩, hselect⟩, hskip⟩, htop⟩, hexpand⟩ := h
    -- Clauses are written in the order of their fields, and of missing ones nothing is.
    have hnil : FieldsEncode [] () (interchange.memberSources []) := .nil
    have hfields := fieldsEncode_optional "resource" resource? hresource
      (fieldsEncode_optional "filter" filter? hfilter
        (fieldsEncode_optional "orderBy" orderBy? horderBy
          (fieldsEncode_optional "select" select? hselect
            (fieldsEncode_optional "skip" skip? hskip
              (fieldsEncode_optional "top" top? htop
                (fieldsEncode_optional "expand" expand? hexpand hnil))))))
    refine encodes_tagged ?_
    simp only [optionsToMembers, List.append_assoc]
    rw [List.append_nil] at hfields
    exact hfields
  | .filter none, _ => encodes_tagged (.null .nil)
  | .filter (some n), h => encodes_tagged (.present (encodes_toJson n h) .nil)
  | .orderBy items, h => encodes_tagged (.required (.list (itemsEncode_list items h)) .nil)
  | .orderKey expression none, h =>
    encodes_tagged (.required (encodes_toJson expression h) (.null .nil))
  | .orderKey expression (some d), h =>
    encodes_tagged (.required (encodes_toJson expression h) (.present (.direction d) .nil))
  | .select items, h => encodes_tagged (.required (.list (itemsEncode_list items h)) .nil)
  | .skip count, h => encodes_tagged (.required (encodes_toJson count h) .nil)
  | .top count, h => encodes_tagged (.required (encodes_toJson count h) .nil)
  | .expand items, h => encodes_tagged (.required (.list (itemsEncode_items items h)) .nil)

theorem itemsEncode_list : (ns : List Node) → (∀ l ∈ listLiterals ns, l.IsFinite) →
    ItemsEncode .node ns (interchange.itemSources (listToJson ns))
  | [], _ => .nil
  | n :: ns, h => by
    obtain ⟨hfirst, hrest⟩ := List.forall_mem_append.mp h
    exact .cons (encodes_toJson n hfirst) (itemsEncode_list ns hrest)

theorem itemsEncode_items : (items : List ExpandItem) → (∀ l ∈ itemsLiterals items, l.IsFinite) →
    ItemsEncode .expandItem items (interchange.itemSources (itemsToJson items))
  | [], _ => .nil
  | ⟨path, options?⟩ :: items, h => by
    simp only [itemsLiterals, List.forall_mem_append] at h
    obtain ⟨⟨hpath, hoptions⟩, hrest⟩ := h
    have hnil : FieldsEncode [] () (interchange.memberSources []) := .nil
    have hfields := fieldsEncode_optional "options" options? hoptions hnil
    rw [List.append_nil] at hfields
    exact .cons (encodes_item (.required (encodes_toJson path hpath) hfields))
      (itemsEncode_items items hrest)

/-- A member is written for what is there only. -/
theorem fieldsEncode_optional {fs : List Field} {r : Record fs} {members : List (String × Json)}
    (name : String) : (n? : Option Node) → (∀ l ∈ optionLiterals n?, l.IsFinite) →
    FieldsEncode fs r (interchange.memberSources members) →
    FieldsEncode (.optional name .node :: fs) (n?, r)
      (interchange.memberSources (optionToMembers name n? ++ members))
  | none, _, hrest => .leftOut hrest
  | some n, h, hrest => .present (encodes_toJson n h) hrest

end

end Node

end EntityQuery
