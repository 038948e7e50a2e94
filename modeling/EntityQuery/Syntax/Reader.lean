import EntityQuery.Json.Reader
import EntityQuery.Syntax.Decode

/-!
# Reading query trees

A tree is read from JSON text. A text that is no JSON is malformed, whatever else is wrong with it,
with one exception: the kind of the root is looked at when it is met, so that a root of no known
kind is reported before anything that comes after it.
-/

namespace EntityQuery

inductive ReadError where
  /-- The text is no JSON, or is nested too deeply. -/
  | malformed
  | invalid (error : DecodeError)

namespace Node.Text

/-- The number of arrays and objects that may be nested, the root included. -/
def maxDepth : Nat := 127

/-- The nesting that is left inside the root. -/
def innerDepth : Nat := maxDepth - 1

def wellFormed {α : Type} : Option α → Except ReadError α
  | some a => .ok a
  | none => .error .malformed

def decoded {α : Type} (r : Except DecodeError α) : Except ReadError α :=
  r.mapError .invalid

def afterColon (cs : List Char) : Except ReadError (List Char) :=
  match Json.skipSpace cs with
  | ':' :: rest => .ok rest
  | _ => .error .malformed

/-- The kind of the root, off the head of a text. Only its name is taken, not its place. -/
def takeKind (cs : List Char) : Except ReadError (NodeKind × List Char) :=
  match Json.skipSpace cs with
  | '"' :: rest => do
    let (name, r) ← wellFormed (Json.readText? rest)
    let k ← decoded (Decode.select NodeKind.table (String.ofList name))
    return (k, r)
  | '[' :: _ => decoded (Decode.mismatch (.array []) "variant identifier")
  | '{' :: _ => decoded (Decode.mismatch (.object []) "variant identifier")
  | r => do
    let (value, _) ← wellFormed (Json.takeScalar? r)
    decoded (Decode.mismatch value "variant identifier")

/-- What has been read of the members of the root, and the text behind its closing brace. -/
structure Members where
  kind? : Option NodeKind
  others : List (String × Json)
  rest : List Char

/-- The members of the root up to its closing brace. Each takes a character at least, which bounds
the fuel. -/
def takeMembers : (fuel : Nat) → Option NodeKind → List Char → Except ReadError Members
  | 0, _, _ => .error .malformed
  | fuel + 1, kind?, cs => do
    let (name, r) ← wellFormed (Json.readString? (Json.skipSpace cs))
    if name = "kind" then
      -- A second kind is refused at its name, whatever follows it.
      if kind?.isSome then
        decoded (.error (.duplicateField "kind"))
      else
        let (k, r) ← takeKind (← afterColon r)
        match Json.skipSpace r with
        | ',' :: r => takeMembers fuel (some k) r
        | '}' :: r => return ⟨some k, [], r⟩
        | _ => .error .malformed
    else
      let (value, r) ← wellFormed (Json.takeValue? innerDepth (← afterColon r))
      match Json.skipSpace r with
      | ',' :: r =>
        let m ← takeMembers fuel kind? r
        return { m with others := (name, value) :: m.others }
      | '}' :: r => return ⟨kind?, [(name, value)], r⟩
      | _ => .error .malformed

/-- The node whose members stand at the head of a text, behind its opening brace. -/
def takeObject (cs : List Char) : Except ReadError (Node × List Char) := do
  let m ← match Json.skipSpace cs with
    | '}' :: r => .ok ⟨none, [], r⟩
    | r => takeMembers (r.length + 1) none r
  match m.kind? with
  | none => decoded (.error (.missingField "kind"))
  | some k =>
    let slots ← decoded (Decode.ofMembers k.fields (.empty _) m.others)
    let record ← decoded slots.close
    return (k.build record, m.rest)

/-- The items of the root behind its kind. -/
def takeFurtherItems (cs : List Char) : Except ReadError (List Json × List Char) :=
  match Json.skipSpace cs with
  | ']' :: r => .ok ([], r)
  | ',' :: r => wellFormed (Json.takeItems? innerDepth r)
  | _ => .error .malformed

/-- The node whose items stand at the head of a text, behind its opening bracket. -/
def takeArray (cs : List Char) : Except ReadError (Node × List Char) :=
  match Json.skipSpace cs with
  | ']' :: _ => decoded (.error (.missingField "kind"))
  | r => do
    let (k, r) ← takeKind r
    let (items, r) ← takeFurtherItems r
    let error := Decode.tooShort k.owner k.fields.length
    let record ← decoded (Decode.ofItems error 0 k.fields items)
    return (k.build record, r)

/-- The node at the head of a text, and what follows it. -/
def takeNode (cs : List Char) : Except ReadError (Node × List Char) :=
  match Json.skipSpace cs with
  | '{' :: rest => takeObject rest
  | '[' :: rest => takeArray rest
  | r => do
    let (value, _) ← wellFormed (Json.takeScalar? r)
    decoded (Decode.mismatch value "internally tagged enum Node")

/-- Nothing but blanks may follow. -/
def atEnd {α : Type} (a : α) (rest : List Char) : Except ReadError α :=
  if Json.skipSpace rest = [] then .ok a else .error .malformed

end Node.Text

def Node.ofText (s : String) : Except ReadError Node := do
  let (n, rest) ← Node.Text.takeNode s.toList
  Node.Text.atEnd n rest

/-- The root that a text encodes; null stands for no query at all. -/
def Node.rootOfText (s : String) : Except ReadError (Option Node) :=
  match Json.skipSpace s.toList with
  | 'n' :: 'u' :: 'l' :: 'l' :: rest => Node.Text.atEnd none rest
  | _ => (Node.ofText s).map some

end EntityQuery
