import EntityQuery.Document.Extended
import EntityQuery.Syntax.Reader
import EntityQuery.Compile.Target

/-!
# Requests

A request asks to compile a query that is given as text.
-/

namespace EntityQuery

inductive RequestError where
  | noInput
  | notUnicode
  | unreadable (e : ReadError)
  | uncompilable (e : CompileError)

def ReadError.message : ReadError → String
  | .malformed => "malformed JSON"
  | .invalid e => e.message

def RequestError.message : RequestError → String
  | .noInput => "No input provided. Use --input or pipe an AST as JSON to stdin."
  | .notUnicode => "IO error: stream did not contain valid UTF-8"
  | .unreadable e => "Invalid AST JSON: " ++ e.message
  | .uncompilable e => "Translation error: " ++ e.message

def answer (o : Options) (target : Compile.Target) (input? : Option String) :
    Except RequestError Json :=
  match input? with
  | none => .error .noInput
  | some text =>
    match Node.rootOfText text with
    | .error e => .error (.unreadable e)
    | .ok root? =>
      match Compile.value o target root? with
      | .error e => .error (.uncompilable e)
      | .ok v => .ok v.toJson

end EntityQuery
