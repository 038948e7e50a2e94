import EntityQuery.Json.Source

/-!
# Reading JSON

A reader takes a value off the head of a text, as it is written there, and returns what follows it.
It accepts the grammar of JSON and nothing else, up to a given number of nested arrays and objects.
-/

namespace EntityQuery.Json

def isSpace (c : Char) : Bool :=
  c == ' ' || c == '\n' || c == '\t' || c == '\r'

def skipSpace (cs : List Char) : List Char :=
  cs.dropWhile isSpace

/-! ## Strings -/

/-- The character that a letter names behind a backslash. -/
def unescape? : Char → Option Char
  | '"' => some '"'
  | '\\' => some '\\'
  | '/' => some '/'
  | 'b' => some '\x08'
  | 'f' => some '\x0c'
  | 'n' => some '\n'
  | 'r' => some '\r'
  | 't' => some '\t'
  | _ => none

/-- The number that four hexadecimal digits spell. -/
def unit? (a b c d : Char) : Option Nat := do
  let a ← Text.hexDigit? a
  let b ← Text.hexDigit? b
  let c ← Text.hexDigit? c
  let d ← Text.hexDigit? d
  return ((a * 16 + b) * 16 + c) * 16 + d

def isHighSurrogate (unit : Nat) : Bool := 0xD800 ≤ unit && unit < 0xDC00

def isLowSurrogate (unit : Nat) : Bool := 0xDC00 ≤ unit && unit < 0xE000

/-- The characters of a string up to its closing quote, and what follows the quote. A code unit that
is half of a pair counts only with its other half behind it. -/
def readText? : List Char → Option (List Char × List Char)
  | [] => none
  | '"' :: rest => some ([], rest)
  | '\\' :: 'u' :: a :: b :: c :: d :: rest =>
    match unit? a b c d with
    | none => none
    | some unit =>
      if isHighSurrogate unit then
        match rest with
        | '\\' :: 'u' :: a' :: b' :: c' :: d' :: rest' =>
          match unit? a' b' c' d' with
          | none => none
          | some low =>
            if isLowSurrogate low then
              let code := 0x10000 + (unit - 0xD800) * 0x400 + (low - 0xDC00)
              (readText? rest').map fun (cs, r) => (Char.ofNat code :: cs, r)
            else none
        | _ => none
      -- The second half of a pair cannot come first.
      else if isLowSurrogate unit then none
      else (readText? rest).map fun (cs, r) => (Char.ofNat unit :: cs, r)
  | '\\' :: e :: rest =>
    match unescape? e with
    | none => none
    | some c => (readText? rest).map fun (cs, r) => (c :: cs, r)
  | c :: rest =>
    -- A backslash that gets here has nothing behind it.
    if c.toNat < 0x20 || c == '\\' then none
    else (readText? rest).map fun (cs, r) => (c :: cs, r)

def readString? : List Char → Option (String × List Char)
  | '"' :: rest => (readText? rest).map fun (cs, r) => (String.ofList cs, r)
  | _ => none

/-! ## Values -/

/-- The value at the head of a text that is no array and no object. -/
def readScalar? : List Char → Option (Source × List Char)
  | 'n' :: 'u' :: 'l' :: 'l' :: rest => some (.null, rest)
  | 't' :: 'r' :: 'u' :: 'e' :: rest => some (.bool true, rest)
  | 'f' :: 'a' :: 'l' :: 's' :: 'e' :: rest => some (.bool false, rest)
  | '"' :: rest => (readText? rest).map fun (cs, r) => (.string (String.ofList cs), r)
  | cs => (scanNumeral? cs).map fun (n, r) => (.number n, r)

mutual

/-- The value at the head of a text, with at most `depth` nested arrays and objects. Each two calls
take a character off the text, which bounds the fuel. -/
def readValue? : (fuel depth : Nat) → List Char → Option (Source × List Char)
  | 0, _, _ => none
  | fuel + 1, depth, cs =>
    match skipSpace cs, depth with
    | '[' :: _, 0 => none
    | '{' :: _, 0 => none
    | '[' :: rest, depth + 1 =>
      match skipSpace rest with
      | ']' :: r => some (.array [], r)
      | r => (readItems? fuel depth r).map fun (items, r) => (.array items, r)
    | '{' :: rest, depth + 1 =>
      match skipSpace rest with
      | '}' :: r => some (.object [], r)
      | r => (readMembers? fuel depth r).map fun (members, r) => (.object members, r)
    | r, _ => readScalar? r

/-- The items of an array up to its closing bracket. -/
def readItems? : (fuel depth : Nat) → List Char → Option (List Source × List Char)
  | 0, _, _ => none
  | fuel + 1, depth, cs => do
    let (item, r) ← readValue? fuel depth cs
    match skipSpace r with
    | ',' :: r =>
      let (items, r) ← readItems? fuel depth r
      return (item :: items, r)
    | ']' :: r => return ([item], r)
    | _ => none

/-- The members of an object up to its closing brace. -/
def readMembers? : (fuel depth : Nat) → List Char → Option (List (String × Source) × List Char)
  | 0, _, _ => none
  | fuel + 1, depth, cs => do
    let (name, r) ← readString? (skipSpace cs)
    let ':' :: r := skipSpace r | none
    let (value, r) ← readValue? fuel depth r
    match skipSpace r with
    | ',' :: r =>
      let (members, r) ← readMembers? fuel depth r
      return ((name, value) :: members, r)
    | '}' :: r => return ([(name, value)], r)
    | _ => none

end

/-- The tree that a text spells, as it is written. -/
def Source.ofText? (depth : Nat) (s : String) : Option Source := do
  let cs := s.toList
  let (value, r) ← readValue? (2 * cs.length + 2) depth cs
  if skipSpace r = [] then some value else none

/-! ## Trees of integers and floats -/

/-- The value at the head of a text that is no array and no object, and what follows it. -/
def takeScalar? (cs : List Char) : Option (Json × List Char) := do
  let (value, r) ← readScalar? cs
  return (← value.json?, r)

/-- The value at the head of a text, and what follows it. -/
def takeValue? (depth : Nat) (cs : List Char) : Option (Json × List Char) := do
  let (value, r) ← readValue? (2 * cs.length + 2) depth cs
  return (← value.json?, r)

/-- The items at the head of a text up to the bracket that closes them, and what follows it. -/
def takeItems? (depth : Nat) (cs : List Char) : Option (List Json × List Char) := do
  let (items, r) ← readItems? (2 * cs.length + 2) depth cs
  return (← Source.itemsJson? items, r)

def ofText? (depth : Nat) (s : String) : Option Json := do
  let value ← Source.ofText? depth s
  value.json?

end EntityQuery.Json
