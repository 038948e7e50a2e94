import EntityQuery.Text.Extending
import EntityQuery.Text.Ignorable
import EntityQuery.Text.Printable

/-!
# Quoted text

A text in double quotes, as error messages show it: whatever could not be seen is escaped.
-/

namespace EntityQuery.Text

/-- The letter that names a character behind a backslash. -/
def quotedLetter? : Char → Option Char
  | '\x00' => some '0'
  | '\t' => some 't'
  | '\r' => some 'r'
  | '\n' => some 'n'
  | '"' => some '"'
  | '\\' => some '\\'
  | _ => none

/-- The two halfwidth sound marks of kana. They extend the kana before them, but they are letters
with a width of their own, so a reader sees them. -/
def isHalfwidthSoundMark (c : Char) : Bool :=
  c == '\uff9e' || c == '\uff9f'

/-- A character that a reader of the quoted text would not see on its own: it does not print, is
ignored, or is drawn onto the character before it. -/
def isHidden (c : Char) : Bool :=
  (isExtending c && !isHalfwidthSoundMark c) || isIgnorable c || !isPrintable c

/-- A character as it stands in quotes. A hidden one is written by its code point in braces. -/
def quotedChar (c : Char) : List Char :=
  match quotedLetter? c with
  | some letter => ['\\', letter]
  | none =>
    if isHidden c then ['\\', 'u', '\x7b'] ++ Nat.toDigits 16 c.toNat ++ ['\x7d'] else [c]

def quoted (s : String) : String :=
  String.ofList ('"' :: s.toList.flatMap quotedChar ++ ['"'])

end EntityQuery.Text
