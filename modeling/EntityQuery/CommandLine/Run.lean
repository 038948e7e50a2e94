import EntityQuery.CommandLine.Arguments
import EntityQuery.Compile.Request

/-!
# Running the command line

What the program writes for its arguments and its input, and the status with which it ends: 0 if it
did what was asked, 1 if the request has no answer, and 2 if the arguments cannot be used.
-/

namespace EntityQuery.CommandLine

structure Result where
  status : UInt32
  out : String
  err : String

def version : String := "odata-mongo 0.1.0\n"

def usageLines : List String :=
  ["Translate OData query ASTs (as JSON) into MongoDB queries and pipelines",
   "",
   "Usage: odata-mongo [OPTIONS] <query|filter|pipeline> [OPTIONS]",
   "",
   "Options:",
   "  -i, --input <INPUT>           AST as JSON (reads from stdin if not provided)",
   "  -p, --pretty                  Pretty-print the output",
   "      --foreign-field <FIELD>   Field of the joined collection [default: _id]",
   "      --no-unwind               Keep joined documents as arrays",
   "      --case-insensitive        Match texts case-insensitively",
   "  -v, --verbose                 Log steps to stderr",
   "  -q, --quiet                   Log nothing, not even warnings",
   "  -h, --help                    Print help",
   "  -V, --version                 Print version"]

def usage : String :=
  String.join (usageLines.map fun line => line ++ "\n")

/-- The arguments leave the input to be read from standard input. -/
def needsInput (args : List String) : Bool :=
  match read args with
  | some (.compile i) => i.input?.isNone
  | _ => false

/-- The text that an invocation is about: the one given with it, or else standard input. -/
def inputText (i : Invocation) (stdin? : Option ByteArray) :
    Except RequestError (Option String) :=
  match i.input?, stdin? with
  | some text, _ => .ok (some text)
  | none, none => .ok none
  | none, some bytes =>
    match String.fromUTF8? bytes with
    | some text => .ok (some text)
    | none => .error .notUnicode

def compile (i : Invocation) (stdin? : Option ByteArray) : Except RequestError String := do
  let text? ← inputText i stdin?
  let json ← answer i.options i.target text?
  let style := Json.Style.interchange
  return if i.pretty then style.pretty json else style.compact json

def run (args : List String) (stdin? : Option ByteArray) : Result :=
  match read args with
  | none => ⟨2, "", usage⟩
  | some (.notice .version) => ⟨0, version, ""⟩
  | some (.notice .help) => ⟨0, usage, ""⟩
  | some (.compile i) =>
    match compile i stdin? with
    | .ok text => ⟨0, text ++ "\n", ""⟩
    | .error e => ⟨1, "", e.message ++ "\n"⟩

end EntityQuery.CommandLine
