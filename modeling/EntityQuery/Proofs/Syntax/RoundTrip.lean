import EntityQuery.Proofs.Syntax.RootReading
import EntityQuery.Syntax.Build

/-!
# Round trips

The text of a tree is read as this tree, and so is every other text that spells one of its
encodings: with blanks between the tokens, with the members in another order and among others that
nobody knows, and without what is absent.
-/

namespace EntityQuery

open Json (Source)

/-- A float as it is read. Every other literal stays as it is. -/
def Literal.rereadDouble : Literal → Literal
  | .double x => .double (Json.reread x)
  | l => l

namespace Node

/-- The text of a node spells one of its encodings. -/
theorem toText_spells (n : Node) (hfinite : n.IsFinite) (hdepth : n.toJson.depth ≤ Text.maxDepth) :
    ∃ src : Source, Shape.Encodes .node n src ∧ src.SpelledBy n.toText ∧
      src.depth ≤ Text.maxDepth := by
  refine ⟨Json.Style.interchange.source n.toJson, n.encodes_toJson hfinite,
    Json.isReadable_interchange.compact_spells n.toJson, ?_⟩
  rwa [Json.Style.depth_source]

/-- **The text of a tree is read as this tree**, but for the floats, which are what the reader makes
of their digits, and for the sign of a decimal zero, which is lost. -/
theorem ofText_toText (n : Node) (hfinite : n.IsFinite) (hdepth : n.toJson.depth ≤ Text.maxDepth) :
    ofText n.toText = .ok (n.mapLiterals Literal.reread) := by
  obtain ⟨src, hencodes, hspells, hnesting⟩ := n.toText_spells hfinite hdepth
  exact ofText_of_encodes hencodes hspells hnesting

/-- The float `0.5`. -/
def half : Binary64 :=
  Binary64.ofRatio false 1 2

/-- `Price gt 12.50 or Ratio lt 0.5`, with the ten first results. -/
def priced : Node :=
  .options ((QueryOptions.empty.withFilter
    (.binary .or
      (.binary (.comparison .gt) (.identifier "Price")
        (.literal (.decimal ⟨false, 1250, 2, by decide, by decide⟩)))
      (.binary (.comparison .lt) (.identifier "Ratio") (.literal (.double half))))).withTop 10)

theorem ofText_toText_priced :
    priced.IsFinite ∧ priced.toJson.depth ≤ Text.maxDepth ∧ ofText priced.toText = .ok priced := by
  have hliterals : priced.literals =
      [.decimal ⟨false, 1250, 2, by decide, by decide⟩, .double half, .integer 10] := rfl
  have hfinite : priced.IsFinite := by
    intro l hl x hx
    subst hx
    rw [hliterals] at hl
    obtain rfl : x = half := by simpa using hl
    decide +kernel
  have hdepth : priced.toJson.depth ≤ Text.maxDepth := by decide +kernel
  have hsame : priced.mapLiterals Literal.reread = priced := by
    have hhalf : Json.reread half = half := by decide +kernel
    simp [priced, QueryOptions.withFilter, QueryOptions.withTop, QueryOptions.empty, mapLiterals,
      optionMapLiterals, Literal.reread, hhalf, Decimal.positiveZero]
  have hread := ofText_toText priced hfinite hdepth
  rw [hsame] at hread
  exact ⟨hfinite, hdepth, hread⟩

/-- The decimal `-0.00`, which arises where a zero is negated. -/
def negativeZero : Node :=
  .literal (.decimal ⟨true, 0, 2, by decide, by decide⟩)

/-- Not every literal other than a float is read as it was written. -/
theorem ofText_negativeZero_ne :
    ¬∀ n : Node, n.IsFinite → n.toJson.depth ≤ Text.maxDepth →
      ofText n.toText = .ok (n.mapLiterals Literal.rereadDouble) := by
  intro h
  have hfinite : negativeZero.IsFinite := by
    intro l hl x hx
    subst hx
    cases List.mem_singleton.mp hl
  have hdepth : negativeZero.toJson.depth ≤ Text.maxDepth := by decide +kernel
  obtain ⟨src, hencodes, hspells, hnesting⟩ := negativeZero.toText_spells hfinite hdepth
  have hread := h negativeZero hfinite hdepth
  rw [ofText_of_encodes hencodes hspells hnesting] at hread
  simp only [Except.ok.injEq, negativeZero, mapLiterals, literal.injEq] at hread
  revert hread
  decide

/-- **All encodings of a tree are read as the same tree**, whatever text spells them and whether or
not there might be no tree at all. -/
theorem ofText_eq_of_encodes {n : Node} {src : Source} {text : String} (hfinite : n.IsFinite)
    (hdepth : n.toJson.depth ≤ Text.maxDepth) (hencodes : Shape.Encodes .node n src)
    (hspells : src.SpelledBy text) (hnesting : src.depth ≤ Text.maxDepth) :
    ∃ m, ofText text = .ok m ∧ ofText n.toText = .ok m ∧
      rootOfText text = .ok (some m) ∧ rootOfText n.toText = .ok (some m) := by
  obtain ⟨src', hencodes', hspells', hnesting'⟩ := n.toText_spells hfinite hdepth
  have hread := ofText_of_encodes hencodes hspells hnesting
  have hread' := ofText_of_encodes hencodes' hspells' hnesting'
  exact ⟨_, hread, hread', rootOfText_of_ofText hread, rootOfText_of_ofText hread'⟩

/-- The sort key `round(2)`, without a direction. -/
def roundedKey : Node :=
  .orderKey (.call "round" [.literal (.integer 2)]) none

/-- The same with the kinds behind the fields, a value before its type and a member that nobody
knows. The direction is left out. -/
def rearranged : Json :=
  .object
    [("expression", .object
      [("name", .string "round"),
       ("args", .array [.object
         [("value", .object [("value", .int 2), ("type", .string "integer")]),
          ("kind", .string "literal")]]),
       ("note", .array [.bool true]), ("kind", .string "functionCall")]),
     ("kind", .string "orderByItem")]

theorem encodes_rearranged :
    Shape.Encodes .node roundedKey (Json.Style.interchange.source rearranged) := by
  have hfinite : (Literal.integer 2).IsFinite := fun x hx => by cases hx
  have hliteral : Shape.Encodes .node (.literal (.integer 2)) (Json.Style.interchange.source
      (.object [("value", .object [("value", .int 2), ("type", .string "integer")]),
        ("kind", .string "literal")])) :=
    .node (.required (.literal (.plain hfinite) (areForeign_nil _) (.swap _ _ [])) .nil)
      (areForeign_nil _) (.swap _ _ [])
  have hforeign : AreForeign ["kind", "name", "args"] [("note", .array [.bool true])] := by
    intro m hm
    rw [List.mem_singleton.mp hm]
    exact ⟨by decide, rfl⟩
  have horder (name args note kind : String × Source) :
      [name, args, note, kind].Perm (kind :: ([name, args] ++ [note])) :=
    List.perm_append_singleton kind [name, args, note]
  have hcall : Shape.Encodes .node (.call "round" [.literal (.integer 2)])
      (Json.Style.interchange.source (.object
        [("name", .string "round"),
         ("args", .array [.object
           [("value", .object [("value", .int 2), ("type", .string "integer")]),
            ("kind", .string "literal")]]),
         ("note", .array [.bool true]), ("kind", .string "functionCall")])) :=
    .node (.required (.text "round") (.items (.cons hliteral .nil) .nil)) hforeign
      (horder _ _ _ _)
  exact .node (.required hcall (.leftOut .nil)) (areForeign_nil _) (.swap _ _ [])

theorem ofText_eq_of_encodes_rearranged :
    (roundedKey.IsFinite ∧ roundedKey.toJson.depth ≤ Text.maxDepth ∧
      Shape.Encodes .node roundedKey (Json.Style.interchange.source rearranged) ∧
      (Json.Style.interchange.source rearranged).SpelledBy
        (Json.Style.interchange.pretty rearranged) ∧
      (Json.Style.interchange.source rearranged).depth ≤ Text.maxDepth) ∧
    ∃ m, ofText (Json.Style.interchange.pretty rearranged) = .ok m ∧
      ofText roundedKey.toText = .ok m ∧
      rootOfText (Json.Style.interchange.pretty rearranged) = .ok (some m) ∧
      rootOfText roundedKey.toText = .ok (some m) := by
  have hfinite : roundedKey.IsFinite := by
    intro l hl x hx
    obtain rfl : l = .integer 2 := List.mem_singleton.mp hl
    cases hx
  have hdepth : roundedKey.toJson.depth ≤ Text.maxDepth := by decide +kernel
  have hspells := Json.isReadable_interchange.pretty_spells rearranged
  have hnesting : (Json.Style.interchange.source rearranged).depth ≤ Text.maxDepth := by
    decide +kernel
  exact ⟨⟨hfinite, hdepth, encodes_rearranged, hspells, hnesting⟩,
    ofText_eq_of_encodes hfinite hdepth encodes_rearranged hspells hnesting⟩

end Node

end EntityQuery
