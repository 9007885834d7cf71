/-! The arguments of the program: a command, its options and what it is applied to. Options may
stand anywhere, their value in the same argument or in the next, and two dashes end them. -/

set_option autoImplicit false

namespace Bindery

inductive Command where
  /-- Writes the umbrella header of a project. -/
  | umbrella (config output : Option String)
  /-- Reports what is remarkable about a unit. -/
  | check (unit : String)
  /-- Prints the model of a unit, or the part at a path. -/
  | dump (unit : String) (path output : Option String)
  /-- Prints the plan for the roots given here, or for those of the project. -/
  | plan (unit : String) (roots : List String) (config output : Option String)
  deriving DecidableEq, Repr

namespace Command

inductive Request where
  | run (command : Command)
  | help
  | misuse
  deriving DecidableEq, Repr

structure OptionForm where
  long : String
  short : Char
  /-- The value names a file and may not be empty. -/
  isFile : Bool

def configOption : OptionForm := ⟨"config", 'c', true⟩

def outputOption : OptionForm := ⟨"output", 'o', true⟩

def pathOption : OptionForm := ⟨"path", 'p', false⟩

structure Form where
  name : String
  options : List OptionForm
  /-- The first operand names a unit and must be there. -/
  takesUnit : Bool
  takesRoots : Bool

def forms : List Form := [
  ⟨"umbrella", [configOption, outputOption], false, false⟩,
  ⟨"check", [], true, false⟩,
  ⟨"dump", [pathOption, outputOption], true, false⟩,
  ⟨"plan", [configOption, outputOption], true, true⟩]

structure Reading where
  verbose : Bool := false
  quiet : Bool := false
  /-- Values by the long name of their option. -/
  values : List (String × String) := []
  operands : List String := []

inductive Step where
  | next (reading : Reading)
  /-- The value of the option is the next argument. -/
  | valueOf (option : OptionForm) (reading : Reading)
  | help
  | misuse

namespace Reading

/-- Gives an option its value; no option is given twice. -/
def give (reading : Reading) (option : OptionForm) (value : String) : Step :=
  if (reading.values.lookup option.long).isSome || (option.isFile && value.isEmpty) then .misuse
  else .next { reading with values := reading.values ++ [(option.long, value)] }

def verboser (reading : Reading) : Reading := { reading with verbose := true }

def quieter (reading : Reading) : Reading := { reading with quiet := true }

def withoutEquals : List Char → List Char
  | '=' :: rest => rest
  | text => text

/-- Letters behind a single dash. -/
def shortOptions (form : Form) (reading : Reading) : List Char → Step
  | [] => .next reading
  | letter :: rest =>
    if letter = 'v' then shortOptions form reading.verboser rest
    else if letter = 'q' then shortOptions form reading.quieter rest
    else if letter = 'h' then .help
    else
      match form.options.find? fun option => option.short = letter with
      | none => .misuse
      | some option =>
        if rest.isEmpty then .valueOf option reading
        else reading.give option (String.ofList (withoutEquals rest))

/-- A word behind two dashes, perhaps with a value behind an equals sign. -/
def longOption (form : Form) (reading : Reading) (text : List Char) : Step :=
  let name := String.ofList (text.takeWhile (· ≠ '='))
  let value := match text.dropWhile (· ≠ '=') with
    | [] => none
    | _ :: value => some (String.ofList value)
  match form.options.find? fun option => option.long = name with
  | some option =>
    match value with
    | none => .valueOf option reading
    | some value => reading.give option value
  | none =>
    if value.isSome then .misuse
    else if name = "verbose" then .next reading.verboser
    else if name = "quiet" then .next reading.quieter
    else if name = "help" then .help
    else .misuse

def operand (form : Form) (reading : Reading) (value : String) : Step :=
  let position := reading.operands.length
  if form.takesUnit && position = 0 then
    if value.isEmpty then .misuse else .next { reading with operands := [value] }
  else if form.takesRoots then .next { reading with operands := reading.operands ++ [value] }
  else .misuse

/-- An argument in front of any pair of dashes. -/
def argument (form : Form) (reading : Reading) (text : String) : Step :=
  match text.toList with
  | '-' :: '-' :: rest => longOption form reading rest
  | ['-'] => operand form reading text
  | '-' :: rest => shortOptions form reading rest
  | _ => operand form reading text

def looksLikeOption (text : String) : Bool :=
  match text.toList with
  | '-' :: _ :: _ => true
  | _ => false

end Reading

def ofReading? (form : Form) (reading : Reading) : Option Command :=
  let value (option : OptionForm) := reading.values.lookup option.long
  if reading.verbose && reading.quiet then none
  else
    match form.name, reading.operands with
    | "umbrella", [] => some (.umbrella (value configOption) (value outputOption))
    | "check", [unit] => some (.check unit)
    | "dump", [unit] => some (.dump unit (value pathOption) (value outputOption))
    | "plan", unit :: roots => some (.plan unit roots (value configOption) (value outputOption))
    | _, _ => none

def finish (form : Form) (reading : Reading) : Request :=
  match ofReading? form reading with
  | some command => .run command
  | none => .misuse

/-- Operands behind two dashes. -/
def readOperands (form : Form) (reading : Reading) : List String → Request
  | [] => finish form reading
  | text :: rest =>
    match reading.operand form text with
    | .next reading => readOperands form reading rest
    | _ => .misuse

/-- The arguments behind the name of a command; `awaiting` is an option that has yet to get its
value. -/
def readArguments (form : Form) (awaiting : Option OptionForm) (reading : Reading) :
    List String → Request
  | [] => if awaiting.isSome then .misuse else finish form reading
  | text :: rest =>
    match awaiting with
    | some option =>
      if Reading.looksLikeOption text then .misuse
      else
        match reading.give option text with
        | .next reading => readArguments form none reading rest
        | _ => .misuse
    | none =>
      if text = "--" then readOperands form reading rest
      else
        match reading.argument form text with
        | .next reading => readArguments form none reading rest
        | .valueOf option reading => readArguments form (some option) reading rest
        | .help => .help
        | .misuse => .misuse

/-- Asking for help on a command, which takes no further commands itself. -/
def helpOn : List String → Request
  | [] => .help
  | [name] => if name = "help" || forms.any (·.name = name) then .help else .misuse
  | _ => .misuse

/-- What the program takes in front of a command. -/
def programForm : Form := ⟨"", [], false, false⟩

def request (reading : Reading) : List String → Request
  | [] => .misuse
  | text :: rest =>
    match forms.find? fun form => form.name = text with
    | some form =>
      match readArguments form none {} rest with
      | .run command => if reading.verbose && reading.quiet then .misuse else .run command
      | other => other
    | none =>
      if text = "help" then helpOn rest
      else
        match reading.argument programForm text with
        | .next reading => request reading rest
        | .help => .help
        | _ => .misuse

def requestOf (arguments : List String) : Request := request {} arguments

def usage : String := "Usage: hydra [-v] [-q] <COMMAND>

Commands:
  umbrella [-c FILE] [-o OUT]                Write the umbrella header of a project
  check UNIT                                 Build the model of a unit and report diagnostics
  dump UNIT [-p NAME] [-o OUT]               Print the model of a unit
  plan UNIT [ROOT]... [-c FILE] [-o OUT]     Print the plan of a binding
  help [COMMAND]                             Print this text
"

end Command

end Bindery
