import Bindery.Command.Run
import Bindery.OrderedMap

/-! A tree of files held in memory, with a current directory. Paths that leave the tree lead nowhere. -/

set_option autoImplicit false

namespace Bindery

/-- Files by the names on the way from the top. One without a text is there, but cannot be read. -/
abbrev FileTree.Files := OrderedMap (List String) (Option String)

/-- Files that can be read. -/
def FileTree.Files.ofList (texts : List (List String × String)) : Files :=
  OrderedMap.ofList (texts.map fun (place, text) => (place, some text))

structure FileTree where
  files : FileTree.Files := ∅
  directories : List (List String) := []
  current : List String := []
  deriving DecidableEq

namespace FileTree

/-- A directory is the top, one that was made, or one above a directory or file. -/
def isDirectory (t : FileTree) (names : List String) : Bool :=
  names.isEmpty || t.directories.any names.isPrefixOf ||
    t.files.keys.any fun path => names.length < path.length && names.isPrefixOf path

/-- Goes down from a directory by names, of which one dot stays and two dots go up. Every step has
to end in a directory. -/
def walk (t : FileTree) : List String → List String → Option (List String)
  | here, [] => some here
  | here, name :: rest =>
    let next :=
      if name = "" ∨ name = "." then some here
      else if name = ".." then if here.isEmpty then none else some here.dropLast
      else some (here ++ [name])
    match next with
    | none => none
    | some next => if t.isDirectory next then walk t next rest else none

/-- The place of a file, which may not exist yet, in a directory that does. -/
def place? (t : FileTree) (path : String) : Option (List String) := do
  let names := (path.toList.splitOn '/').map String.ofList
  let start := if path.startsWith "/" then [] else t.current
  let name ← names.getLast?
  if name = "" ∨ name = "." ∨ name = ".." then none
  else
    let directory ← t.walk start names.dropLast
    return directory ++ [name]

/-- What is known of the file at a path: nothing if there is none, and else its text if it has one. -/
def file? (t : FileTree) (path : String) : Option (Option String) := (t.place? path).bind t.files.get?

def read? (t : FileTree) (path : String) : Option String := (t.file? path).join

def write? (t : FileTree) (path text : String) : Option FileTree :=
  match t.place? path with
  | none => none
  | some place =>
    if t.isDirectory place then none else some { t with files := t.files.put place (some text) }

/-- A directory and those above it, inmost first. -/
def upward (names : List String) : List String :=
  (List.range (names.length + 1)).reverse.map fun count =>
    "/" ++ "/".intercalate (names.take count)

def access : FileAccess (StateM FileTree) where
  directories := do return upward (← get).current
  isFile path := do return ((← get).file? path).isSome
  read path := do return (← get).read? path
  write path text := do
    match (← get).write? path text with
    | none => return false
    | some t => set t; return true

end FileTree

end Bindery
