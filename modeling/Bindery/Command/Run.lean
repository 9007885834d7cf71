import Bindery.Ast.Load
import Bindery.Binding.Outline
import Bindery.Command.Arguments
import Bindery.Model.Listing
import Bindery.Project.Load

/-! Running a command. What a command needs of the file system is a parameter, so that it runs on
real files and on a tree of files held in memory alike. -/

set_option autoImplicit false

namespace Bindery

open Ast (LoadError TranslationUnit)
open Binding (BindError Plan)
open Project (Config ConfigError)

structure FileAccess (m : Type → Type) where
  /-- The current directory and those above it, inmost first. -/
  directories : m (List String)
  isFile : String → m Bool
  /-- The text of a file, if it can be read. -/
  read : String → m (Option String)
  /-- Replaces the text of a file, and tells whether that was possible. -/
  write : String → String → m Bool

inductive CommandError where
  | unwritable (path : String)
  | configNotFound (directory : String)
  | lookup (path : String) (error : LookupError)
  | load (error : LoadError)
  | config (error : ConfigError)
  | bind (error : BindError)
  deriving DecidableEq, Repr

def CommandError.report : CommandError → Report
  | .unwritable path =>
    { message := s!"I/O error while writing '{path}'"
      code := "hydra::cli::io_error" }
  | .configNotFound directory =>
    { message := s!"No hydra.toml found in {directory} or any parent directory"
      code := "hydra::cli::config_not_found"
      help := some "Pass --config explicitly or run from inside a project" }
  | .lookup path _ =>
    { message := s!"Cannot dump from `{path}`"
      code := "hydra::cli::lookup_error" }
  | .load error => error.report
  | .config error => error.report
  | .bind error => error.report

inductive Ending where
  /-- The command did its work and printed a text. -/
  | success (output : String)
  | failure (error : CommandError)
  /-- A question to the model has no end. -/
  | endless (search : Endless)
  deriving DecidableEq, Repr

/-- Why a command comes to no text. -/
inductive Halt where
  | failure (error : CommandError)
  | endless (search : Endless)
  deriving DecidableEq, Repr

def Halt.ending : Halt → Ending
  | .failure error => .failure error
  | .endless search => .endless search

structure Outcome where
  ending : Ending
  /-- What was reported on the way, in order. -/
  reports : List Report := []
  deriving DecidableEq, Repr

namespace Outcome

def status (outcome : Outcome) : Nat :=
  match outcome.ending with
  | .success _ => 0
  | .failure _ | .endless _ => 1

def output (outcome : Outcome) : String :=
  match outcome.ending with
  | .success output => output
  | .failure _ | .endless _ => ""

/-- All reports; that of the error comes last. -/
def allReports (outcome : Outcome) : List Report :=
  match outcome.ending with
  | .failure error => outcome.reports ++ [error.report]
  | .success _ | .endless _ => outcome.reports

end Outcome

namespace Command

/-- What building a unit gives before any question is asked. -/
def buildReports (s : Session) : List Report := s.diagnostics.map Diagnostic.report

def checkText (path : String) (u : TranslationUnit) (s : Session) : String :=
  let depth := u.inclusions.foldl (fun depth inclusion => max depth inclusion.depth.toNat) 0
  s!"checked {path}: {s.model.size} nodes, {s.diagnostics.length} diagnostics, " ++
    s!"{u.inclusions.length} includes (max depth {depth})\n"

def dumpText (s : Session) : Option String → Except CommandError String
  | none => .ok s.model.listing
  | some path =>
    match s.model.resolvePath path with
    | .error error => .error (.lookup path error)
    | .ok id => .ok (s.model.listingFrom id)

/-- Planning asks the model and reports on the way. What is reported stays so however planning ends. -/
abbrev Planner := StateT Draft (ExceptT Halt (StateM (List Report)))

namespace Planner

def ask {α : Type} (question : Query α) : Planner α := fun d reports =>
  match question d with
  | .error search => (.error (.endless search), reports)
  | .ok answer => (.ok answer, reports)

def report (found : List Report) : Planner Unit := fun d reports => (.ok ((), d), reports ++ found)

end Planner

/-- The names of the roots to plan for: those given, or else those of the project. -/
def namesOf (config : Config) (roots : List String) : List String :=
  if roots.isEmpty then config.rootNames else roots

/-- The outline of the plan. Unknown roots and refused entities are reported when they come up. -/
def planText (config : Config) (roots : List String) (u : TranslationUnit) : Planner String := do
  let (policy, _) ← .ask (Binding.Policy.detectCasters { config := config.policy } u)
  let (roots, unknown) := Binding.resolveRoots (← .ask Query.model) (namesOf config roots)
  .report (unknown.map BindError.report)
  let closure ← .ask (Binding.closure u policy roots.toList)
  let notices := closure.notices (← .ask Query.model)
  .report (notices.map Binding.VetoNotice.report)
  match ← .ask (Binding.order u closure) with
  | .error error => throw (.failure (.bind error))
  | .ok order =>
    let plan ← .ask (Plan.ofOrder u policy config.emit order)
    return Binding.Outline.text (← .ask Query.model) plan

variable {m : Type → Type} [Monad m] (files : FileAccess m)

/-- The nearest file with the configuration, looking upward from the current directory. -/
def nearestConfig : List String → m (Option String)
  | [] => return none
  | directory :: above => do
    let path := (if directory = "/" then "" else directory) ++ "/" ++ Project.configFileName
    if ← files.isFile path then return some path else nearestConfig above

/-- The path of the configuration: the one given, or that of the nearest file. -/
def locateConfig : Option String → m (Except CommandError String)
  | some path => return .ok path
  | none => do
    let directories ← files.directories
    match ← nearestConfig files directories with
    | some path => return .ok path
    | none => return .error (.configNotFound (directories.head?.getD "."))

def loadConfig (given : Option String) : m (Except CommandError Config) := do
  match ← locateConfig files given with
  | .error error => return .error error
  | .ok path =>
    match ← files.read path with
    | none => return .error (.config (.unreadable path))
    | some text => return (Config.ofText text).mapError .config

def loadUnit (path : String) : m (Except CommandError TranslationUnit) := do
  match ← files.read path with
  | none => return .error (.load (.inaccessible path))
  | some text => return (TranslationUnit.ofText text).mapError .load

/-- Writes a text to the output, if one is given, or else leaves it to be printed. -/
def deliver (text : String) (blame : String → CommandError) : Option String → m Ending
  | none => return .success text
  | some path => do
    if ← files.write path text then return .success "" else return .failure (blame path)

def fail (error : CommandError) (reports : List Report := []) : Outcome :=
  { ending := .failure error, reports }

def runUmbrella (config output : Option String) : m Outcome := do
  match ← loadConfig files config with
  | .error error => return fail error
  | .ok config =>
    let blame (path : String) : CommandError := .load (.inaccessible path)
    return { ending := ← deliver files config.umbrella blame output }

def runCheck (path : String) : m Outcome := do
  match ← loadUnit files path with
  | .error error => return fail error
  | .ok u =>
    let s := (Session.start u).build
    return { ending := .success (checkText path u s), reports := buildReports s }

def runDump (path : String) (part output : Option String) : m Outcome := do
  match ← loadUnit files path with
  | .error error => return fail error
  | .ok u =>
    match dumpText (Session.start u).build part with
    | .error error => return fail error
    | .ok text => return { ending := ← deliver files text .unwritable output }

def runPlan (path : String) (roots : List String) (config output : Option String) : m Outcome := do
  match ← loadConfig files config with
  | .error error => return fail error
  | .ok config =>
    match ← loadUnit files path with
    | .error error => return fail error
    | .ok u =>
      let s := (Session.start u).build
      match planText config roots u s.draft (buildReports s) with
      | (.error halt, reports) => return { ending := halt.ending, reports }
      | (.ok (text, _), reports) =>
        return { ending := ← deliver files text .unwritable output, reports }

def run : Command → m Outcome
  | .umbrella config output => runUmbrella files config output
  | .check unit => runCheck files unit
  | .dump unit path output => runDump files unit path output
  | .plan unit roots config output => runPlan files unit roots config output

end Command

end Bindery
