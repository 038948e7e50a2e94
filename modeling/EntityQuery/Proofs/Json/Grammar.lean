import EntityQuery.Json.Reader
import EntityQuery.Proofs.Text.Numeral

/-!
# The grammar of JSON

Which texts spell a tree: the spellings of numbers and strings, and blanks around every token. A
text that spells a tree is read as that tree, if the reader may go as deep as the tree is nested.
-/

namespace EntityQuery.Json

open Text (IsDigits spanDigits_append)

/-! ## Numbers -/

/-- Digits of which the first is no zero, or a zero alone. -/
def IsWhole (ds : List Char) : Prop :=
  IsDigits ds ∧ (ds.head? = some '0' → ds = ['0'])

inductive FractionSpells : List Char → List Char → Prop where
  | none : FractionSpells [] []
  | some {ds : List Char} (h : IsDigits ds) : FractionSpells ds ('.' :: ds)

/-- An exponent behind either of its marks, with or without a sign. -/
inductive ExponentSpells : Option Int → List Char → Prop where
  | none : ExponentSpells none []
  | unsigned {mark : Char} {ds : List Char} (hmark : mark = 'e' ∨ mark = 'E') (h : IsDigits ds) :
      ExponentSpells (some (Text.ofDecimal ds)) (mark :: ds)
  | plus {mark : Char} {ds : List Char} (hmark : mark = 'e' ∨ mark = 'E') (h : IsDigits ds) :
      ExponentSpells (some (Text.ofDecimal ds)) (mark :: '+' :: ds)
  | minus {mark : Char} {ds : List Char} (hmark : mark = 'e' ∨ mark = 'E') (h : IsDigits ds) :
      ExponentSpells (some (-(Text.ofDecimal ds : Int))) (mark :: '-' :: ds)

inductive Numeral.Spells : Numeral → List Char → Prop where
  | unsigned {whole fraction fs es : List Char} {exponent? : Option Int} (hwhole : IsWhole whole)
      (hfraction : FractionSpells fraction fs) (hexponent : ExponentSpells exponent? es) :
      Spells ⟨false, whole, fraction, exponent?⟩ (whole ++ (fs ++ es))
  | negative {whole fraction fs es : List Char} {exponent? : Option Int} (hwhole : IsWhole whole)
      (hfraction : FractionSpells fraction fs) (hexponent : ExponentSpells exponent? es) :
      Spells ⟨true, whole, fraction, exponent?⟩ ('-' :: (whole ++ (fs ++ es)))

/-! ## Strings -/

/-- The spelling of characters between quotes. -/
inductive TextSpells : List Char → List Char → Prop where
  | nil : TextSpells [] []
  | plain {c : Char} {s cs : List Char} (hc : 0x20 ≤ c.toNat) (hquote : c ≠ '"')
      (hslash : c ≠ '\\') (h : TextSpells s cs) : TextSpells (c :: s) (c :: cs)
  | letter {e c : Char} {s cs : List Char} (hc : unescape? e = some c) (h : TextSpells s cs) :
      TextSpells (c :: s) ('\\' :: e :: cs)
  | unit {a b c d : Char} {u : Nat} {s cs : List Char} (hu : unit? a b c d = some u)
      (hhigh : isHighSurrogate u = false) (hlow : isLowSurrogate u = false)
      (h : TextSpells s cs) :
      TextSpells (Char.ofNat u :: s) ('\\' :: 'u' :: a :: b :: c :: d :: cs)
  | pair {a b c d a' b' c' d' : Char} {u l : Nat} {s cs : List Char} (hu : unit? a b c d = some u)
      (hl : unit? a' b' c' d' = some l) (hhigh : isHighSurrogate u = true)
      (hlow : isLowSurrogate l = true) (h : TextSpells s cs) :
      TextSpells (Char.ofNat (0x10000 + (u - 0xD800) * 0x400 + (l - 0xDC00)) :: s)
        ('\\' :: 'u' :: a :: b :: c :: d :: '\\' :: 'u' :: a' :: b' :: c' :: d' :: cs)

/-! ## Values -/

def IsBlank (w : List Char) : Prop :=
  ∀ c ∈ w, isSpace c = true

theorem isBlank_nil : IsBlank [] :=
  fun _ h => absurd h List.not_mem_nil

mutual

inductive Source.Spells : Source → List Char → Prop where
  | null : Source.Spells .null ['n', 'u', 'l', 'l']
  | isTrue : Source.Spells (.bool true) ['t', 'r', 'u', 'e']
  | isFalse : Source.Spells (.bool false) ['f', 'a', 'l', 's', 'e']
  | number {n : Numeral} {cs : List Char} (h : n.Spells cs) : Source.Spells (.number n) cs
  | string {s : String} {cs : List Char} (h : TextSpells s.toList cs) :
      Source.Spells (.string s) ('"' :: (cs ++ ['"']))
  | noItems {w : List Char} (hw : IsBlank w) : Source.Spells (.array []) ('[' :: (w ++ [']']))
  | array {items : List Source} {cs : List Char} (h : ItemsSpell items cs) :
      Source.Spells (.array items) ('[' :: (cs ++ [']']))
  | noMembers {w : List Char} (hw : IsBlank w) :
      Source.Spells (.object []) ('\x7b' :: (w ++ ['\x7d']))
  | object {members : List (String × Source)} {cs : List Char} (h : MembersSpell members cs) :
      Source.Spells (.object members) ('\x7b' :: (cs ++ ['\x7d']))

/-- The spelling of one item or more, between brackets. -/
inductive ItemsSpell : List Source → List Char → Prop where
  | last {s : Source} {w cs w' : List Char} (hw : IsBlank w) (h : Source.Spells s cs)
      (hend : IsBlank w') : ItemsSpell [s] (w ++ (cs ++ w'))
  | cons {s : Source} {items : List Source} {w cs w' rest : List Char} (hw : IsBlank w)
      (h : Source.Spells s cs) (hend : IsBlank w') (hrest : ItemsSpell items rest) :
      ItemsSpell (s :: items) (w ++ (cs ++ (w' ++ ',' :: rest)))

/-- The spelling of one member or more, between braces. -/
inductive MembersSpell : List (String × Source) → List Char → Prop where
  | last {name : String} {s : Source} {w ns w₁ w₂ cs w₃ : List Char} (hw : IsBlank w)
      (hname : TextSpells name.toList ns) (hcolon : IsBlank w₁) (hvalue : IsBlank w₂)
      (h : Source.Spells s cs) (hend : IsBlank w₃) :
      MembersSpell [(name, s)]
        (w ++ '"' :: (ns ++ '"' :: (w₁ ++ ':' :: (w₂ ++ (cs ++ w₃)))))
  | cons {name : String} {s : Source} {members : List (String × Source)}
      {w ns w₁ w₂ cs w₃ rest : List Char} (hw : IsBlank w) (hname : TextSpells name.toList ns)
      (hcolon : IsBlank w₁) (hvalue : IsBlank w₂) (h : Source.Spells s cs) (hend : IsBlank w₃)
      (hrest : MembersSpell members rest) :
      MembersSpell ((name, s) :: members)
        (w ++ '"' :: (ns ++ '"' :: (w₁ ++ ':' :: (w₂ ++ (cs ++ (w₃ ++ ',' :: rest))))))

end

/-- A whole text spells a tree, with blanks around it. -/
def Source.SpelledBy (s : Source) (text : String) : Prop :=
  ∃ w cs w', IsBlank w ∧ s.Spells cs ∧ IsBlank w' ∧ text.toList = w ++ (cs ++ w')

mutual

/-- How many arrays and objects are nested in one another. -/
def Source.depth : Source → Nat
  | .array items => itemsDepth items + 1
  | .object members => membersDepth members + 1
  | _ => 0

def itemsDepth : List Source → Nat
  | [] => 0
  | s :: items => max s.depth (itemsDepth items)

def membersDepth : List (String × Source) → Nat
  | [] => 0
  | (_, s) :: members => max s.depth (membersDepth members)

end

/-! ## Reading numbers -/

/-- The text goes on with nothing that belongs to a number. -/
def EndsNumber (rest : List Char) : Prop :=
  ∀ c ∈ rest.head?, c.isDigit = false ∧ c ≠ '.' ∧ c ≠ 'e' ∧ c ≠ 'E'

theorem scanWhole?_append {ds rest : List Char} (hds : IsWhole ds)
    (hrest : ∀ c ∈ rest.head?, c.isDigit = false) :
    scanWhole? (ds ++ rest) = some (ds, rest) := by
  obtain ⟨⟨hne, hdigits⟩, hzero⟩ := hds
  rw [scanWhole?, spanDigits_append hdigits hrest]
  split
  · rename_i h
    exact absurd (Prod.mk.inj h).1 hne
  · rename_i h
    obtain ⟨rfl, -⟩ := Prod.mk.inj h
    cases hzero rfl
  · rfl

theorem scanFraction?_append {ds fs rest : List Char} (h : FractionSpells ds fs)
    (hrest : ∀ c ∈ rest.head?, c.isDigit = false ∧ c ≠ '.') :
    scanFraction? (fs ++ rest) = some (ds, rest) := by
  cases h with
  | none =>
    cases rest with
    | nil => rfl
    | cons c rest =>
      have hc : c ≠ '.' := (hrest c rfl).2
      unfold scanFraction?
      split
      · rename_i h
        exact absurd (List.cons.inj h).1 hc
      · rfl
  | some h =>
    have hspan : Text.spanDigits (ds ++ rest) = (ds, rest) :=
      spanDigits_append h.2 fun c hc => (hrest c hc).1
    rw [List.cons_append, scanFraction?, hspan]
    split
    · rename_i hnil
      exact absurd (Prod.mk.inj hnil).1 h.1
    · rfl

theorem scanExponentDigits?_append {ds rest : List Char} (h : IsDigits ds)
    (hrest : ∀ c ∈ rest.head?, c.isDigit = false) (negative : Bool) :
    scanExponentDigits? negative (ds ++ rest) =
      some (some (if negative then -(Text.ofDecimal ds : Int) else Text.ofDecimal ds), rest) := by
  rw [scanExponentDigits?, spanDigits_append h.2 hrest]
  split
  · rename_i hnil
    exact absurd (Prod.mk.inj hnil).1 h.1
  · rename_i hne heq
    obtain ⟨rfl, rfl⟩ := Prod.mk.inj heq
    rfl

theorem scanExponent?_append {e? : Option Int} {es rest : List Char} (h : ExponentSpells e? es)
    (hrest : EndsNumber rest) : scanExponent? (es ++ rest) = some (e?, rest) := by
  have hdigit : ∀ c ∈ rest.head?, c.isDigit = false := fun c hc => (hrest c hc).1
  cases h with
  | none =>
    cases rest with
    | nil => rfl
    | cons c rest =>
      obtain ⟨-, -, he, hE⟩ := hrest c rfl
      unfold scanExponent?
      split <;> simp_all
  | plus hmark h => rcases hmark with rfl | rfl <;> exact scanExponentDigits?_append h hdigit false
  | minus hmark h => rcases hmark with rfl | rfl <;> exact scanExponentDigits?_append h hdigit true
  | unsigned hmark h =>
    -- The first digit is no sign.
    obtain ⟨d, ds, rfl⟩ := List.exists_cons_of_ne_nil h.1
    have hd : d.isDigit = true := h.2 d List.mem_cons_self
    have hminus : d ≠ '-' := by
      rintro rfl
      exact absurd hd (by decide)
    have hplus : d ≠ '+' := by
      rintro rfl
      exact absurd hd (by decide)
    have hscan := scanExponentDigits?_append h hdigit false
    rcases hmark with rfl | rfl
    all_goals
      rw [List.cons_append, List.cons_append] at *
      unfold scanExponent?
      split <;> simp_all

theorem scanUnsigned?_append {whole fraction fs es rest : List Char} {exponent? : Option Int}
    (hwhole : IsWhole whole) (hfraction : FractionSpells fraction fs)
    (hexponent : ExponentSpells exponent? es) (hrest : EndsNumber rest) (negative : Bool) :
    scanUnsigned? negative (whole ++ (fs ++ es) ++ rest) =
      some (⟨negative, whole, fraction, exponent?⟩, rest) := by
  -- Each part ends at a character with which it cannot go on.
  have hes : ∀ c ∈ (es ++ rest).head?, c.isDigit = false ∧ c ≠ '.' := by
    intro c hc
    cases hexponent with
    | none => exact ⟨(hrest c hc).1, (hrest c hc).2.1⟩
    | _ hmark =>
      obtain rfl : _ = c := by simpa using hc
      rcases hmark with rfl | rfl <;> decide
  have hfs : ∀ c ∈ (fs ++ (es ++ rest)).head?, c.isDigit = false := by
    intro c hc
    cases hfraction with
    | none => exact (hes c hc).1
    | some =>
      obtain rfl : '.' = c := by simpa using hc
      decide
  rw [scanUnsigned?, List.append_assoc, List.append_assoc, scanWhole?_append hwhole hfs]
  show (scanFraction? (fs ++ (es ++ rest))).bind _ = _
  rw [scanFraction?_append hfraction hes]
  show (scanExponent? (es ++ rest)).bind _ = _
  rw [scanExponent?_append hexponent hrest]
  rfl

theorem Numeral.Spells.scan {n : Numeral} {cs rest : List Char} (h : n.Spells cs)
    (hrest : EndsNumber rest) : scanNumeral? (cs ++ rest) = some (n, rest) := by
  cases h with
  | negative hwhole hfraction hexponent =>
    exact scanUnsigned?_append hwhole hfraction hexponent hrest true
  | unsigned hwhole hfraction hexponent =>
    obtain ⟨d, ds, rfl⟩ := List.exists_cons_of_ne_nil hwhole.1.1
    have hminus : d ≠ '-' := by
      rintro rfl
      exact absurd (hwhole.1.2 _ List.mem_cons_self) (by decide)
    rw [← scanUnsigned?_append hwhole hfraction hexponent hrest false]
    unfold scanNumeral?
    split
    · rename_i h
      exact absurd (List.cons.inj h).1 hminus
    · rfl

end EntityQuery.Json
