import EntityQuery.Compile.Target

/-!
# Arguments

What the arguments of the command line ask for. Arguments stand on two levels: before the command
and behind it. Each level knows its own switches and settings, takes each of them once, and does
not take the two switches that exclude each other together.
-/

namespace EntityQuery.CommandLine

/-- An option that stands alone. -/
inductive Switch where
  | verbose
  | quiet
  | pretty
  | noUnwind
  | ignoreCase
deriving DecidableEq

/-- An option that takes a value. -/
inductive Setting where
  | input
  | foreignField
deriving DecidableEq

/-- What is asked for instead of compiling a query. -/
inductive Notice where
  | version
  | help
deriving DecidableEq

inductive Meaning where
  | switch (s : Switch)
  | setting (s : Setting)
  | notice (n : Notice)

inductive Level where
  | program
  | command
deriving DecidableEq

def ofLetter? (level : Level) (c : Char) : Option Meaning :=
  match level, c with
  | _, 'v' => some (.switch .verbose)
  | _, 'q' => some (.switch .quiet)
  | _, 'h' => some (.notice .help)
  | .program, 'V' => some (.notice .version)
  | .command, 'p' => some (.switch .pretty)
  | .command, 'i' => some (.setting .input)
  | _, _ => none

def ofName? (level : Level) (name : String) : Option Meaning :=
  let table : List (String × Meaning) :=
    match level with
    | .program => [("version", .notice .version)]
    | .command =>
      [("input", .setting .input), ("pretty", .switch .pretty),
       ("foreign-field", .setting .foreignField), ("no-unwind", .switch .noUnwind),
       ("case-insensitive", .switch .ignoreCase)]
  let common : List (String × Meaning) :=
    [("verbose", .switch .verbose), ("quiet", .switch .quiet), ("help", .notice .help)]
  (table ++ common).lookup name

def target? (name : String) : Option Compile.Target :=
  [("query", Compile.Target.find), ("filter", .filter), ("pipeline", .pipeline)].lookup name

/-- The options that were given on a level. -/
structure Given where
  switches : List Switch
  settings : List (Setting × String)

namespace Given

def nothing : Given := ⟨[], []⟩

/-- Add a switch, unless it was given before. -/
def addSwitch? (g : Given) (s : Switch) : Option Given :=
  if s ∈ g.switches then none else some { g with switches := s :: g.switches }

/-- Add a setting, unless it was given before. -/
def addSetting? (g : Given) (s : Setting) (value : String) : Option Given :=
  if (g.settings.lookup s).isSome then none
  else some { g with settings := (s, value) :: g.settings }

/-- No options that exclude each other. -/
def isConsistent (g : Given) : Bool :=
  !(g.switches.contains .verbose && g.switches.contains .quiet)

end Given

structure Invocation where
  target : Compile.Target
  input? : Option String
  pretty : Bool
  options : Options

def Invocation.ofGiven (target : Compile.Target) (g : Given) : Invocation where
  target := target
  input? := g.settings.lookup .input
  pretty := g.switches.contains .pretty
  options :=
    { foreignField := (g.settings.lookup .foreignField).getD ({} : Options).foreignField
      unwind := !g.switches.contains .noUnwind
      ignoreCase := g.switches.contains .ignoreCase }

inductive Request where
  | notice (n : Notice)
  | compile (i : Invocation)

/-! ## Single arguments -/

/-- What an argument that starts with a hyphen amounts to. -/
inductive Reading where
  | given (g : Given)
  /-- The value is the next argument. -/
  | needsValue (s : Setting)
  | notice (n : Notice)
  | unusable

/-- Add an option to those given, if that is possible. -/
def Reading.ofGiven? : Option Given → Reading
  | some g => .given g
  | none => .unusable

/-- The value behind a letter in the same argument; an equals sign may stand between. -/
def attachedValue? : List Char → Option String
  | [] => none
  | '=' :: value => some (String.ofList value)
  | value => some (String.ofList value)

/-- Read the letters behind a single hyphen. A setting takes what follows its letter as its value. -/
def readLetters (level : Level) (g : Given) : List Char → Reading
  | [] => .given g
  | c :: cs =>
    match ofLetter? level c with
    | none => .unusable
    | some (.notice n) => .notice n
    | some (.switch s) =>
      match g.addSwitch? s with
      | some g => readLetters level g cs
      | none => .unusable
    | some (.setting s) =>
      match attachedValue? cs with
      | some value => .ofGiven? (g.addSetting? s value)
      | none => .needsValue s

/-- Read a name behind two hyphens, with its value behind an equals sign. -/
def readName (level : Level) (g : Given) (cs : List Char) : Reading :=
  let (name, value) := cs.span (· != '=')
  match ofName? level (String.ofList name), value with
  | some (.notice n), [] => .notice n
  | some (.switch s), [] => .ofGiven? (g.addSwitch? s)
  | some (.setting s), [] => .needsValue s
  | some (.setting s), _ :: value => .ofGiven? (g.addSetting? s (String.ofList value))
  | _, _ => .unusable

/-- An argument that can be the value of a setting: not an option, though it may be a hyphen. -/
def isValue (arg : String) : Bool :=
  arg == "-" || arg.toList.head? != some '-'

/-! ## All arguments -/

def readCommand (target : Compile.Target) (g : Given) : List String → Option Request
  | [] => if g.isConsistent then some (.compile (.ofGiven target g)) else none
  | arg :: args =>
    let reading : Reading :=
      match arg.toList with
      -- Behind two hyphens only plain arguments may come, and a command takes none.
      | '-' :: '-' :: [] => if args.isEmpty then .given g else .unusable
      | '-' :: '-' :: name => readName .command g name
      | '-' :: c :: cs => readLetters .command g (c :: cs)
      | _ => .unusable
    match reading with
    | .unusable => none
    | .notice n => some (.notice n)
    | .given g => readCommand target g args
    | .needsValue s =>
      match args with
      | [] => none
      | value :: args =>
        if isValue value then
          match g.addSetting? s value with
          | some g => readCommand target g args
          | none => none
        else none

/-- Read all arguments. Arguments that ask for nothing that can be done have no reading. -/
def readProgram (g : Given) : List String → Option Request
  | [] => none
  | arg :: args =>
    match arg.toList with
    | '-' :: '-' :: name =>
      match readName .program g name with
      | .notice n => some (.notice n)
      | .given g => readProgram g args
      | _ => none
    | '-' :: c :: cs =>
      match readLetters .program g (c :: cs) with
      | .notice n => some (.notice n)
      | .given g => readProgram g args
      | _ => none
    | _ =>
      if arg = "help" then
        if args.all fun a => (target? a).isSome then some (.notice .help) else none
      else
        match target? arg with
        | none => none
        | some target =>
          match readCommand target .nothing args with
          -- A notice is given before the options of the program are compared.
          | some (.compile i) => if g.isConsistent then some (.compile i) else none
          | r => r

def read (args : List String) : Option Request :=
  readProgram .nothing args

end EntityQuery.CommandLine
