import EntityQuery.Json.Tree
import EntityQuery.Numeric.Layout

/-!
# Writing JSON

A style fixes what a writer may choose: how floats are laid out and which characters are escaped. A
text is written on one line, or with each item on a line of its own.
-/

namespace EntityQuery.Json

structure Style where
  layout : Layout
  /-- The letter that stands for a character behind a backslash. -/
  letter? : Char → Option Char
  /-- Characters without a letter that are written by their code unit. -/
  coded : Char → Bool

/-- The letters of the five characters that every style escapes by one. -/
def commonLetter? : Char → Option Char
  | '"' => some '"'
  | '\\' => some '\\'
  | '\n' => some 'n'
  | '\r' => some 'r'
  | '\t' => some 't'
  | _ => none

/-- The letters of all characters that have one. -/
def fullLetter? : Char → Option Char
  | '\x08' => some 'b'
  | '\x0c' => some 'f'
  | c => commonLetter? c

/-- A control character of ASCII, other than DEL. -/
def isLowControl (c : Char) : Bool :=
  c.toNat < 0x20

def isControl (c : Char) : Bool :=
  c.toNat < 0x20 || 0x7F ≤ c.toNat && c.toNat < 0xA0

/-- For people: floats below `1e-4` and from `1e16` on have an exponent, without a plus sign, and
every control character is escaped. -/
def Style.display : Style where
  layout := ⟨.away, -4, 16, true, false⟩
  letter? := commonLetter?
  coded := isControl

/-- For programs: floats below `1e-5` and from `1e16` on have an exponent, with a sign, and only
what JSON forbids in a string is escaped. -/
def Style.interchange : Style where
  layout := ⟨.toEven, -5, 16, true, true⟩
  letter? := fullLetter?
  coded := isLowControl

namespace Style

def escapeChar (st : Style) (c : Char) : List Char :=
  match st.letter? c with
  | some letter => ['\\', letter]
  | none => if st.coded c then '\\' :: 'u' :: Text.hexDigits 4 c.toNat else [c]

def string (st : Style) (s : String) : List Char :=
  '"' :: s.toList.flatMap st.escapeChar ++ ['"']

/-- A float; JSON has no text for NaN and the infinities. -/
def double (st : Style) (x : Binary64) : List Char :=
  ((st.layout.text? x).getD "null").toList

/-- The start of a new line at a level of nesting. On one line there is none. -/
def lineBreak (pretty : Bool) (level : Nat) : List Char :=
  if pretty then '\n' :: List.replicate (2 * level) ' ' else []

mutual

def value (st : Style) (pretty : Bool) (level : Nat) : Json → List Char
  | .null => "null".toList
  | .bool b => (if b then "true" else "false").toList
  | .int n => Text.integer n
  | .double x => st.double x
  | .string s => st.string s
  | .array [] => ['[', ']']
  | .array (x :: xs) =>
    '[' :: items st pretty (level + 1) [] (x :: xs) ++ lineBreak pretty level ++ [']']
  | .object [] => ['{', '}']
  | .object (m :: ms) =>
    '{' :: members st pretty (level + 1) [] (m :: ms) ++ lineBreak pretty level ++ ['}']

/-- Items, each on its line. The separator stands before all but the first. -/
def items (st : Style) (pretty : Bool) (level : Nat) (separator : List Char) :
    List Json → List Char
  | [] => []
  | x :: xs =>
    separator ++ lineBreak pretty level ++ value st pretty level x ++
      items st pretty level [','] xs

def members (st : Style) (pretty : Bool) (level : Nat) (separator : List Char) :
    List (String × Json) → List Char
  | [] => []
  | (name, x) :: ms =>
    separator ++ lineBreak pretty level ++ st.string name ++
      (if pretty then [':', ' '] else [':']) ++ value st pretty level x ++
      members st pretty level [','] ms

end

def compact (st : Style) (j : Json) : String :=
  String.ofList (st.value false 0 j)

/-- A value with each item on a line of its own, two blanks deeper than what holds it. -/
def pretty (st : Style) (j : Json) : String :=
  String.ofList (st.value true 0 j)

end Style

end EntityQuery.Json
