import EntityQuery.Proofs.Numeric.Layout

/-!
# What a writer spells

A text that is written for a tree spells this tree, with the digits that the style gives to its
floats. Line breaks and indentation are blanks between tokens.
-/

namespace EntityQuery.Json

/-! ## Trees with digits -/

def Numeral.ofInt (n : ℤ) : Numeral :=
  ⟨decide (n < 0), Text.decimal n.natAbs, [], none⟩

namespace Style

/-- What is spelled for a float. -/
def doubleSource (st : Style) : Binary64 → Source
  | .finite negative exponent fraction =>
    .number (st.layout.numeral negative (.ofFields exponent fraction))
  | _ => .null

mutual

/-- The tree that is spelled, with the digits of its numbers. -/
def source (st : Style) : Json → Source
  | .null => .null
  | .bool b => .bool b
  | .int n => .number (.ofInt n)
  | .double x => st.doubleSource x
  | .string s => .string s
  | .array items => .array (itemSources st items)
  | .object members => .object (memberSources st members)

def itemSources (st : Style) : List Json → List Source
  | [] => []
  | j :: items => st.source j :: itemSources st items

def memberSources (st : Style) : List (String × Json) → List (String × Source)
  | [] => []
  | (name, j) :: members => (name, st.source j) :: memberSources st members

end

end Style

mutual

/-- How many arrays and objects are nested in one another. -/
def depth : Json → ℕ
  | .array items => itemsNesting items + 1
  | .object members => membersNesting members + 1
  | _ => 0

def itemsNesting : List Json → ℕ
  | [] => 0
  | j :: items => max j.depth (itemsNesting items)

def membersNesting : List (String × Json) → ℕ
  | [] => 0
  | (_, j) :: members => max j.depth (membersNesting members)

end

namespace Style

theorem depth_doubleSource (st : Style) (x : Binary64) : (st.doubleSource x).depth = 0 := by
  cases x <;> rfl

mutual

/-- The digits of numbers do not nest. -/
theorem depth_source (st : Style) : (j : Json) → (st.source j).depth = j.depth
  | .null | .bool _ | .int _ | .string _ => rfl
  | .double x => st.depth_doubleSource x
  | .array items => congrArg (· + 1) (itemsDepth_itemSources st items)
  | .object members => congrArg (· + 1) (membersDepth_memberSources st members)

theorem itemsDepth_itemSources (st : Style) :
    (items : List Json) → itemsDepth (st.itemSources items) = itemsNesting items
  | [] => rfl
  | j :: items => congrArg₂ max (depth_source st j) (itemsDepth_itemSources st items)

theorem membersDepth_memberSources (st : Style) :
    (members : List (String × Json)) →
      membersDepth (st.memberSources members) = membersNesting members
  | [] => rfl
  | (_, j) :: members => congrArg₂ max (depth_source st j) (membersDepth_memberSources st members)

end

end Style

/-! ## Numbers -/

theorem isWhole_decimal (n : ℕ) : IsWhole (Text.decimal n) := by
  refine ⟨Text.isDigits_decimal n, fun h => ?_⟩
  rw [Text.head?_decimal n h]
  rfl

theorem Numeral.ofInt_spells (n : ℤ) : (Numeral.ofInt n).Spells (Text.integer n) := by
  have hspells := Numeral.spells_signed (decide (n < 0)) (isWhole_decimal n.natAbs) .none .none
  rw [List.append_nil, List.append_nil] at hspells
  rw [Text.integer]
  by_cases hn : n < 0
  · simpa [signed, ofInt, hn] using hspells
  · simpa [signed, ofInt, hn] using hspells

theorem Style.doubleSource_spells (st : Style) (x : Binary64) :
    (st.doubleSource x).Spells (st.double x) := by
  cases x with
  | finite negative exponent fraction =>
    obtain ⟨text, htext, hspells⟩ := st.layout.text?_spells negative exponent fraction
    rw [Style.double, htext]
    exact .number hspells
  | nan | infinite =>
    show Source.Spells .null (String.toList "null")
    exact .null

/-! ## Strings -/

/-- The four hexadecimal digits of a code unit spell it. -/
theorem unit?_hexDigits {n : ℕ} (hn : n < 65536) :
    ∃ a b c d, Text.hexDigits 4 n = [a, b, c, d] ∧ unit? a b c d = some n := by
  have hdigit {k : ℕ} : k < 16 → Text.hexDigit? (Nat.digitChar k) = some k := by
    revert k
    decide
  refine ⟨_, _, _, _, rfl, ?_⟩
  unfold unit?
  rw [hdigit (Nat.mod_lt _ (by decide)), hdigit (Nat.mod_lt _ (by decide)),
    hdigit (Nat.mod_lt _ (by decide)), hdigit (Nat.mod_lt _ (by decide))]
  show some _ = some n
  congr 1
  omega

/-- What is written for a character is read as this character. -/
structure Style.IsReadable (st : Style) : Prop where
  letter {c e : Char} (h : st.letter? c = some e) : unescape? e = some c
  /-- Only characters of a single code unit are written by it. -/
  coded {c : Char} (h : st.coded c = true) : c.toNat < 0xD800
  plain {c : Char} (hletter : st.letter? c = none) (hcoded : st.coded c = false) :
    0x20 ≤ c.toNat ∧ c ≠ '"' ∧ c ≠ '\\'

theorem commonLetter?_eq {c e : Char} (h : commonLetter? c = some e) : unescape? e = some c := by
  unfold commonLetter? at h
  split at h <;> first | (obtain rfl := Option.some.inj h; rfl) | cases h

theorem ne_of_commonLetter? {c : Char} (h : commonLetter? c = none) : c ≠ '"' ∧ c ≠ '\\' := by
  constructor
  · rintro rfl
    cases h
  · rintro rfl
    cases h

theorem isReadable_display : Style.display.IsReadable where
  letter := commonLetter?_eq
  coded h := by
    simp only [Style.display, isControl, Bool.or_eq_true, Bool.and_eq_true, decide_eq_true_eq] at h
    omega
  plain hletter hcoded := by
    simp only [Style.display, isControl, Bool.or_eq_false_iff, decide_eq_false_iff_not] at hcoded
    exact ⟨not_lt.mp hcoded.1, ne_of_commonLetter? hletter⟩

theorem isReadable_interchange : Style.interchange.IsReadable where
  letter {c e} h := by
    simp only [Style.interchange] at h
    unfold fullLetter? at h
    split at h
    · obtain rfl := Option.some.inj h
      rfl
    · obtain rfl := Option.some.inj h
      rfl
    · exact commonLetter?_eq h
  coded h := by
    simp only [Style.interchange, isLowControl, decide_eq_true_eq] at h
    omega
  plain {c} hletter hcoded := by
    simp only [Style.interchange, isLowControl, decide_eq_false_iff_not] at hletter hcoded
    unfold fullLetter? at hletter
    split at hletter
    · cases hletter
    · cases hletter
    · exact ⟨not_lt.mp hcoded, ne_of_commonLetter? hletter⟩

variable {st : Style}

theorem Style.IsReadable.textSpells (hst : st.IsReadable) (cs : List Char) :
    TextSpells cs (cs.flatMap st.escapeChar) := by
  induction cs with
  | nil => exact .nil
  | cons c cs ih =>
    rw [List.flatMap_cons, Style.escapeChar]
    cases hletter : st.letter? c with
    | some e => exact .letter (hst.letter hletter) ih
    | none =>
      dsimp only
      cases hcoded : st.coded c with
      | true =>
        -- One code unit is enough, since only control characters are written by it.
        have hunit := hst.coded hcoded
        obtain ⟨a, b, x, d, hdigits, hvalue⟩ := unit?_hexDigits (n := c.toNat) (by omega)
        have hhigh : isHighSurrogate c.toNat = false := by
          simp only [isHighSurrogate, Bool.and_eq_false_iff, decide_eq_false_iff_not]
          omega
        have hlow : isLowSurrogate c.toNat = false := by
          simp only [isLowSurrogate, Bool.and_eq_false_iff, decide_eq_false_iff_not]
          omega
        have hspells := TextSpells.unit hvalue hhigh hlow ih
        rw [Char.ofNat_toNat] at hspells
        rw [if_pos rfl, hdigits]
        exact hspells
      | false =>
        obtain ⟨hc, hquote, hslash⟩ := hst.plain hletter hcoded
        exact .plain hc hquote hslash ih

/-! ## Values -/

theorem isBlank_lineBreak (pretty : Bool) (level : ℕ) : IsBlank (Style.lineBreak pretty level) := by
  cases pretty with
  | false => exact isBlank_nil
  | true =>
    intro c hc
    rcases List.mem_cons.mp hc with rfl | hc
    · decide
    · rw [List.eq_of_mem_replicate hc]
      decide

theorem isBlank_colon (pretty : Bool) : IsBlank (if pretty then [' '] else []) := by
  cases pretty with
  | false => exact isBlank_nil
  | true =>
    intro c hc
    rw [List.mem_singleton.mp hc]
    decide

namespace Style

/-- The separator stands before everything else. -/
theorem items_separator (st : Style) (pretty : Bool) (level : ℕ) (separator : List Char) (x : Json)
    (xs : List Json) :
    items st pretty level separator (x :: xs) = separator ++ items st pretty level [] (x :: xs) := by
  simp only [items, List.append_assoc, List.nil_append]

theorem members_separator (st : Style) (pretty : Bool) (level : ℕ) (separator : List Char)
    (m : String × Json) (ms : List (String × Json)) :
    members st pretty level separator (m :: ms) =
      separator ++ members st pretty level [] (m :: ms) := by
  simp only [members, List.append_assoc, List.nil_append]

mutual

theorem IsReadable.value_spells (hst : st.IsReadable) (pretty : Bool) (level : ℕ) :
    (j : Json) → (st.source j).Spells (st.value pretty level j)
  | .null => .null
  | .bool true => .isTrue
  | .bool false => .isFalse
  | .int n => .number (Numeral.ofInt_spells n)
  | .double x => st.doubleSource_spells x
  | .string s => .string (hst.textSpells s.toList)
  | .array [] => .noItems isBlank_nil
  | .array (x :: xs) =>
    .array (hst.items_spell pretty (level + 1) (x :: xs) (List.cons_ne_nil x xs)
      (isBlank_lineBreak pretty level))
  | .object [] => .noMembers isBlank_nil
  | .object (m :: ms) =>
    .object (hst.members_spell pretty (level + 1) (m :: ms) (List.cons_ne_nil m ms)
      (isBlank_lineBreak pretty level))

/-- What follows the last item are the blanks before the bracket that closes the array. -/
theorem IsReadable.items_spell (hst : st.IsReadable) (pretty : Bool) (level : ℕ) :
    (xs : List Json) → xs ≠ [] → {w : List Char} → IsBlank w →
      ItemsSpell (st.itemSources xs) (st.items pretty level [] xs ++ w)
  | [], h, _, _ => absurd rfl h
  | [x], _, w, hw => by
    have hspells := ItemsSpell.last (isBlank_lineBreak pretty level)
      (hst.value_spells pretty level x) hw
    simpa only [items, itemSources, List.append_assoc, List.nil_append] using hspells
  | x :: y :: ys, _, w, hw => by
    -- The line break behind a comma belongs to the next item.
    have hrest := hst.items_spell pretty level (y :: ys) (List.cons_ne_nil y ys) hw
    have hspells := ItemsSpell.cons (isBlank_lineBreak pretty level)
      (hst.value_spells pretty level x) isBlank_nil hrest
    rw [itemSources, items, items_separator]
    simpa only [List.append_assoc, List.nil_append, List.cons_append] using hspells

theorem IsReadable.members_spell (hst : st.IsReadable) (pretty : Bool) (level : ℕ) :
    (ms : List (String × Json)) → ms ≠ [] → {w : List Char} → IsBlank w →
      MembersSpell (st.memberSources ms) (st.members pretty level [] ms ++ w)
  | [], h, _, _ => absurd rfl h
  | [(name, x)], _, w, hw => by
    have hspells := MembersSpell.last (isBlank_lineBreak pretty level)
      (hst.textSpells name.toList) isBlank_nil (isBlank_colon pretty)
      (hst.value_spells pretty level x) hw
    cases pretty <;>
      simpa [members, memberSources, Style.string] using hspells
  | (name, x) :: m :: ms, _, w, hw => by
    have hrest := hst.members_spell pretty level (m :: ms) (List.cons_ne_nil m ms) hw
    have hspells := MembersSpell.cons (isBlank_lineBreak pretty level)
      (hst.textSpells name.toList) isBlank_nil (isBlank_colon pretty)
      (hst.value_spells pretty level x) isBlank_nil hrest
    rw [memberSources, members, members_separator]
    cases pretty <;>
      simpa [Style.string] using hspells

end

/-- **What a writer writes spells the tree**, on one line as on many. -/
theorem IsReadable.compact_spells (hst : st.IsReadable) (j : Json) :
    (st.source j).SpelledBy (st.compact j) :=
  ⟨[], _, [], isBlank_nil, hst.value_spells false 0 j, isBlank_nil, by
    rw [compact, String.toList_ofList, List.nil_append, List.append_nil]⟩

theorem IsReadable.pretty_spells (hst : st.IsReadable) (j : Json) :
    (st.source j).SpelledBy (st.pretty j) :=
  ⟨[], _, [], isBlank_nil, hst.value_spells true 0 j, isBlank_nil, by
    rw [pretty, String.toList_ofList, List.nil_append, List.append_nil]⟩

end Style

end EntityQuery.Json
