import Bindery.Toml.Basic

/-! Putting tables together from assignments and headers. A table may be extended only in the way in
which it came to be: by dotted keys if dotted keys made it, by a header of its own if headers of
other tables made it, and not at all once it is given as a value or under its own header. -/

set_option autoImplicit false

namespace Bindery.Toml

/-- How a table came to be. -/
inductive Origin where
  /-- Under its own header. -/
  | header
  /-- As a step in the header of another table. -/
  | passage
  /-- As a step in a dotted key. -/
  | dotted
  deriving DecidableEq, Repr

/-- What a key holds while a document is put together. -/
inductive Item where
  | value (value : Toml)
  | table (origin : Origin) (entries : List (String × Item))
  /-- The tables given so far under a doubled header. -/
  | tables (elements : List (List (String × Item)))

abbrev Entries := List (String × Item)

structure Assignment where
  path : List String
  value : Toml

namespace Entries

def find? (entries : Entries) (key : String) : Option Item := entries.lookup key

def replace (entries : Entries) (key : String) (item : Item) : Entries :=
  entries.map fun entry => if entry.1 = key then (key, item) else entry

def remove (entries : Entries) (key : String) : Entries := entries.filter fun entry => entry.1 ≠ key

/-- Gives a value to a key below a table. The flag tells whether the table at hand may take the
value as its own entry. -/
def assign (value : Toml) : Bool → List String → Entries → Option Entries
  | _, [], _ => none
  | mayTake, [key], entries =>
    match mayTake, find? entries key with
    | true, none => some (entries ++ [(key, .value value)])
    | _, _ => none
  | _, key :: path, entries =>
    match find? entries key with
    | none => (assign value true path []).map fun inner => entries ++ [(key, .table .dotted inner)]
    | some (.value _) | some (.table .header _) => none
    | some (.table origin inner) =>
      (assign value (origin = .dotted) path inner).map fun inner =>
        replace entries key (.table origin inner)
    | some (.tables elements) =>
      match elements.getLast? with
      | none => none
      | some last =>
        (assign value false path last).map fun last =>
          replace entries key (.tables (elements.dropLast ++ [last]))

def assignAll (entries : Entries) (assignments : List Assignment) : Option Entries :=
  assignments.foldlM
    (fun entries assignment => assign assignment.value true assignment.path entries) entries

/-- Carries a change out in the table that holds the last key of a header. -/
def below (change : String → Entries → Option Entries) : List String → Entries → Option Entries
  | [], _ => none
  | [key], entries => change key entries
  | key :: path, entries =>
    match find? entries key with
    | none => (below change path []).map fun inner => entries ++ [(key, .table .passage inner)]
    | some (.value _) => none
    | some (.table origin inner) =>
      (below change path inner).map fun inner => replace entries key (.table origin inner)
    | some (.tables elements) =>
      match elements.getLast? with
      | none => none
      | some last =>
        (below change path last).map fun last =>
          replace entries key (.tables (elements.dropLast ++ [last]))

/-- A table under its own header. -/
def placeTable (body : List Assignment) (key : String) (entries : Entries) : Option Entries :=
  match find? entries key with
  | none => (assignAll [] body).map fun inner => entries ++ [(key, .table .header inner)]
  | some (.table .passage inner) =>
    (assignAll inner body).map fun inner => remove entries key ++ [(key, .table .header inner)]
  | some _ => none

/-- One more table under a doubled header. -/
def placeElement (body : List Assignment) (key : String) (entries : Entries) : Option Entries :=
  match find? entries key with
  | none => (assignAll [] body).map fun inner => entries ++ [(key, .tables [inner])]
  | some (.tables elements) =>
    (assignAll [] body).map fun inner => replace entries key (.tables (elements ++ [inner]))
  | some _ => none

end Entries

mutual

def Item.finish : Item → Toml
  | .value value => value
  | .table _ entries => .table (finishEntries entries)
  | .tables elements => .array (finishTables elements)

def finishEntries : List (String × Item) → List (String × Toml)
  | [] => []
  | (key, item) :: rest => (key, item.finish) :: finishEntries rest

def finishTables : List (List (String × Item)) → List Toml
  | [] => []
  | entries :: rest => .table (finishEntries entries) :: finishTables rest

end

structure Section where
  /-- The header is doubled: the table is one of an array. -/
  isElement : Bool
  path : List String
  body : List Assignment

/-- The table of a whole document, from the assignments before the first header and the sections. -/
def document? (body : List Assignment) (sections : List Section) : Option Toml := do
  let root ← Entries.assignAll [] body
  let entries ← sections.foldlM (fun entries part =>
    Entries.below (if part.isElement then Entries.placeElement part.body
      else Entries.placeTable part.body) part.path entries) root
  return .table (finishEntries entries)

def inlineTable? (body : List Assignment) : Option Toml := document? body []

end Bindery.Toml
