import Bindery.Command.Run

/-! The program: a command run on the real file system, its text on standard output and its reports
on standard error. -/

set_option autoImplicit false

namespace Bindery

/-- A directory and those above it, inmost first. -/
def directoriesUpward (path : String) : List String :=
  let names := (path.splitOn "/").filter (· ≠ "")
  (List.range (names.length + 1)).reverse.map fun count =>
    "/" ++ "/".intercalate (names.take count)

def realFiles : FileAccess IO where
  directories := do return directoriesUpward (← IO.currentDir).toString
  isFile path := do
    let file := (← IO.currentDir) / path
    return (← file.pathExists) && !(← file.isDir)
  read path := do
    try return some (← IO.FS.readFile path) catch _ => return none
  write path text := do
    try IO.FS.writeFile path text; return true catch _ => return false

def printReport (report : Report) : IO Unit := do
  IO.eprintln s!"{report.code}: {report.message}"
  if let some help := report.help then IO.eprintln s!"  help: {help}"

/-- Runs the command that the arguments name and gives its exit status. -/
def runProgram (arguments : List String) : IO UInt32 := do
  match Command.requestOf arguments with
  | .help => IO.print Command.usage; return 0
  | .misuse => IO.eprint Command.usage; return 2
  | .run command =>
    let outcome ← command.run realFiles
    outcome.allReports.forM printReport
    if let .endless _ := outcome.ending then
      IO.eprintln "a chain of types has no end"
    IO.print outcome.output
    return UInt32.ofNat outcome.status

end Bindery

def main (arguments : List String) : IO UInt32 := Bindery.runProgram arguments
