import EntityQuery.Condition.Pattern

/-!
# What patterns match

The part of the language of patterns that searches are written in: anchors and characters, where a
backslash before a punctuation character makes it stand for itself. An opening anchor matches at the
start of a text. A closing anchor matches at its end, and before a line feed that is the last
character of the text. Main statement: what the pattern of each search finds.
-/

namespace EntityQuery

namespace Pattern

/-- What stands at one place of a pattern. -/
inductive Piece where
  | start
  | stop
  | char (c : Char)
deriving DecidableEq

/-- The characters that never stand for themselves in a pattern without a backslash before them. -/
def reserved : List Char :=
  ['\\', '^', '$', '.', '[', '|', '(', ')', '?', '*', '+', '\x7b']

def isPunctuation (c : Char) : Bool :=
  '!' ≤ c && c ≤ '~' && !c.isAlphanum

/-- The pieces of a pattern. There are none if anything else stands in it than anchors and
characters. -/
def pieces? : List Char → Option (List Piece)
  | [] => some []
  | '^' :: cs => (pieces? cs).map (.start :: ·)
  | '$' :: cs => (pieces? cs).map (.stop :: ·)
  | '\\' :: c :: cs => if isPunctuation c then (pieces? cs).map (.char c :: ·) else none
  | c :: cs => if c ∈ reserved then none else (pieces? cs).map (.char c :: ·)

/-- The pieces match what comes next in a text. Whether anything comes before it is told beside. -/
def matchesAt : List Piece → (atStart : Bool) → List Char → Bool
  | [], _, _ => true
  | .start :: ps, atStart, cs => atStart && matchesAt ps atStart cs
  | .stop :: ps, atStart, cs => (cs == [] || cs == ['\n']) && matchesAt ps atStart cs
  | .char _ :: _, _, [] => false
  | .char c :: ps, _, d :: cs => c == d && matchesAt ps false cs

/-- The pieces match what comes next in a text or what comes at a later place. -/
def matchesFrom (ps : List Piece) : (atStart : Bool) → List Char → Bool
  | atStart, [] => matchesAt ps atStart []
  | atStart, c :: cs => matchesAt ps atStart (c :: cs) || matchesFrom ps false cs

/-- Whether a pattern matches at some place of a text. -/
def finds? (pattern subject : String) : Option Bool :=
  (pieces? pattern.toList).map fun ps => matchesFrom ps true subject.toList

/-! ## Pieces -/

theorem isPunctuation_of_mem {c : Char} (h : c ∈ metacharacters) : isPunctuation c = true := by
  have hall : metacharacters.all isPunctuation = true := by decide +kernel
  exact List.all_eq_true.mp hall c h

theorem mem_of_mem_reserved {c : Char} (h : c ∈ reserved) : c ∈ metacharacters := by
  have hall : reserved.all (· ∈ metacharacters) = true := by decide +kernel
  exact of_decide_eq_true (List.all_eq_true.mp hall c h)

/-- A metacharacter behind a backslash is the character itself. -/
theorem pieces?_escaped {c : Char} (h : c ∈ metacharacters) (cs : List Char) :
    pieces? ('\\' :: c :: cs) = (pieces? cs).map (.char c :: ·) := by
  rw [pieces?, if_pos (isPunctuation_of_mem h)]

/-- Any other character is the character itself. -/
theorem pieces?_plain {c : Char} (h : c ∉ metacharacters) (cs : List Char) :
    pieces? (c :: cs) = (pieces? cs).map (.char c :: ·) := by
  have hanchor : c ≠ '^' := fun he => h (he ▸ by decide)
  have hdollar : c ≠ '$' := fun he => h (he ▸ by decide)
  have hslash : c ≠ '\\' := fun he => h (he ▸ by decide)
  rw [pieces?.eq_5 _ _ (fun he => hanchor he) (fun he => hdollar he)
    (fun _ _ he => absurd he hslash), if_neg fun hc => h (mem_of_mem_reserved hc)]

/-- An escaped text is a piece for each of its characters. -/
theorem pieces?_escape_append (text rest : List Char) :
    pieces? (escape text ++ rest) = (pieces? rest).map (text.map .char ++ ·) := by
  induction text with
  | nil => cases h : pieces? rest <;> simp [escape, h]
  | cons c text ih =>
    rw [escape]
    split
    · rename_i hc
      rw [List.cons_append, List.cons_append, pieces?_escaped hc, ih, Option.map_map]
      rfl
    · rename_i hc
      rw [List.cons_append, pieces?_plain hc, ih, Option.map_map]
      rfl

/-! ## Places -/

/-- Characters match the text that they spell, and what follows them matches behind it. -/
theorem matchesAt_chars_append {text : List Char} {ps : List Piece} {atStart : Bool}
    {cs : List Char} :
    matchesAt (text.map .char ++ ps) atStart cs = true ↔
      ∃ rest, cs = text ++ rest ∧ matchesAt ps (atStart && text.isEmpty) rest = true := by
  induction text generalizing atStart cs with
  | nil => simp
  | cons c text ih =>
    cases cs with
    | nil => simp [matchesAt]
    | cons d cs =>
      simp only [List.map_cons, List.cons_append, matchesAt, Bool.and_eq_true, beq_iff_eq, ih,
        Bool.false_and, List.isEmpty_cons, Bool.and_false, List.cons.injEq]
      constructor
      · rintro ⟨rfl, rest, rfl, h⟩
        exact ⟨rest, ⟨rfl, rfl⟩, h⟩
      · rintro ⟨rest, ⟨rfl, rfl⟩, h⟩
        exact ⟨rfl, rest, rfl, h⟩

/-- The places of a text are told by what comes before them. -/
theorem matchesFrom_iff {ps : List Piece} {atStart : Bool} {cs : List Char} :
    matchesFrom ps atStart cs = true ↔
      ∃ before after, cs = before ++ after ∧
        matchesAt ps (atStart && before.isEmpty) after = true := by
  -- Only a match with nothing before it is a match at the start.
  induction cs generalizing atStart with
  | nil =>
    constructor
    · intro h
      exact ⟨[], [], rfl, by simpa [matchesFrom] using h⟩
    · rintro ⟨before, after, hcs, h⟩
      obtain ⟨rfl, rfl⟩ := List.nil_eq_append_iff.mp hcs
      simpa [matchesFrom] using h
  | cons c cs ih =>
    rw [matchesFrom, Bool.or_eq_true, ih]
    constructor
    · rintro (h | ⟨before, after, rfl, h⟩)
      · exact ⟨[], c :: cs, rfl, by simpa using h⟩
      · exact ⟨c :: before, after, rfl, by simpa using h⟩
    · rintro ⟨before, after, hcs, h⟩
      cases before with
      | nil =>
        subst hcs
        exact Or.inl (by simpa using h)
      | cons d before =>
        obtain ⟨rfl, rfl⟩ := List.cons.inj hcs
        exact Or.inr ⟨before, after, rfl, by simpa using h⟩

end Pattern

namespace TextSearch

open Pattern (finds? matchesFrom matchesFrom_iff matchesAt_chars_append pieces?
  pieces?_escape_append)

/-- The subjects in which a text is found. At the end of a subject it is found before a last line
feed as well. -/
def Finds : TextSearch → (text subject : List Char) → Prop
  | .contains, text, subject => text <:+: subject
  | .startsWith, text, subject => text <+: subject
  | .endsWith, text, subject => text <:+ subject ∨ text ++ ['\n'] <:+ subject

instance : (m : TextSearch) → (text subject : List Char) → Decidable (m.Finds text subject)
  | .contains, text, subject => inferInstanceAs (Decidable (text <:+: subject))
  | .startsWith, text, subject => inferInstanceAs (Decidable (text <+: subject))
  | .endsWith, text, subject => inferInstanceAs (Decidable (text <:+ subject ∨ _))

/-- The characters of a text with the anchor of the search. -/
def pieces : TextSearch → (text : List Char) → List Pattern.Piece
  | .contains, text => text.map .char ++ []
  | .startsWith, text => .start :: (text.map .char ++ [])
  | .endsWith, text => text.map .char ++ [.stop]

theorem pieces?_pattern (m : TextSearch) (text : String) :
    pieces? (m.pattern text).toList = some (m.pieces text.toList) := by
  have hescape := pieces?_escape_append text.toList []
  rw [List.append_nil] at hescape
  cases m with
  | contains => rw [pattern, String.toList_ofList, hescape]; rfl
  | startsWith => rw [pattern, String.toList_ofList, pieces?, hescape]; rfl
  | endsWith => rw [pattern, String.toList_ofList, pieces?_escape_append]; rfl

/-- Without a closing anchor anything can follow a text. -/
theorem matchesAt_chars {text cs : List Char} {atStart : Bool} :
    Pattern.matchesAt (text.map .char ++ []) atStart cs = true ↔ text <+: cs := by
  rw [matchesAt_chars_append]
  constructor
  · rintro ⟨rest, rfl, -⟩
    exact List.prefix_append _ _
  · rintro ⟨rest, rfl⟩
    exact ⟨rest, rfl, rfl⟩

theorem matchesFrom_pieces (m : TextSearch) (text subject : List Char) :
    matchesFrom (m.pieces text) true subject = true ↔ m.Finds text subject := by
  rw [matchesFrom_iff]
  cases m with
  | contains =>
    simp only [pieces, matchesAt_chars, Finds]
    constructor
    · rintro ⟨before, after, rfl, h⟩
      exact h.isInfix.trans (List.suffix_append _ _).isInfix
    · rintro ⟨before, rest, rfl⟩
      exact ⟨before, text ++ rest, List.append_assoc .., List.prefix_append _ _⟩
  | startsWith =>
    -- The opening anchor leaves no place but the first.
    simp only [pieces, Pattern.matchesAt, Bool.and_eq_true, matchesAt_chars, Bool.true_and,
      List.isEmpty_iff, Finds]
    constructor
    · rintro ⟨before, after, rfl, rfl, h⟩
      exact h
    · intro h
      exact ⟨[], subject, rfl, rfl, h⟩
  | endsWith =>
    -- The closing anchor leaves nothing behind the text, or a line feed.
    simp only [pieces, matchesAt_chars_append, Pattern.matchesAt, Bool.and_true, Bool.or_eq_true,
      beq_iff_eq, Finds]
    constructor
    · rintro ⟨before, after, rfl, rest, rfl, rfl | rfl⟩
      · exact Or.inl (by simp)
      · exact Or.inr (by simp)
    · rintro (⟨before, rfl⟩ | ⟨before, rfl⟩)
      · exact ⟨before, text, rfl, [], by simp, Or.inl rfl⟩
      · exact ⟨before, text ++ ['\n'], rfl, ['\n'], rfl, Or.inr rfl⟩

/-- The pattern of a search finds a text where the search is for it. -/
theorem finds?_pattern (m : TextSearch) (text subject : String) :
    finds? (m.pattern text) subject = some (decide (m.Finds text.toList subject.toList)) := by
  rw [finds?, pieces?_pattern, Option.map_some, Option.some_inj, Bool.eq_iff_iff, decide_eq_true_iff]
  exact matchesFrom_pieces m text.toList subject.toList

end TextSearch

end EntityQuery
