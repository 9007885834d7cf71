import Bindery.Toml.Scalar
import Bindery.Toml.Table
import Bindery.Toml.Text

/-! Reading a TOML document: its lines are assignments, headers, comments or blank. -/

set_option autoImplicit false

namespace Bindery.Toml

/-- White space, line ends and comments, as they may stand between the items of an array. -/
def skipFiller : Nat → List Char → List Char
  | 0, text => text
  | bound + 1, text =>
    match skipBlankLines text with
    | '#' :: rest => skipFiller bound (skipComment ('#' :: rest))
    | rest => rest

mutual

/-- A value, inside a number of further levels that may be opened. The first argument bounds the
number of nested and consecutive values. -/
def readValue : Nat → Nat → List Char → Option (Toml × List Char)
  | 0, _, _ => none
  | bound + 1, levels, text =>
    match text with
    | [] => none
    | '[' :: rest =>
      match levels with
      | 0 => none
      | levels + 1 => (readItems bound levels rest).map fun (items, rest) => (.array items, rest)
    | '\x7b' :: rest =>
      match levels with
      | 0 => none
      | levels + 1 =>
        match skipSpace rest with
        | '\x7d' :: rest => (inlineTable? []).map fun table => (table, rest)
        | rest => do
          let (body, rest) ← readInline bound levels rest
          return (← inlineTable? body, rest)
    | 't' :: 'r' :: 'u' :: 'e' :: rest => some (.boolean true, rest)
    | 'f' :: 'a' :: 'l' :: 's' :: 'e' :: rest => some (.boolean false, rest)
    | c :: _ =>
      if c = '"' ∨ c = '\'' then (string? text).map fun (content, rest) => (.string content, rest)
      else if c = 'i' ∨ c = 'n' then (readSpecialFloat text).read?
      else number? text

/-- The items of an array up to its closing bracket; the last may be followed by a comma. -/
def readItems : Nat → Nat → List Char → Option (List Toml × List Char)
  | 0, _, _ => none
  | bound + 1, levels, text =>
    match skipFiller (text.length + 1) text with
    | ']' :: rest => some ([], rest)
    | text =>
      match readValue bound levels text with
      | none => none
      | some (item, rest) =>
        match skipFiller (rest.length + 1) rest with
        | ']' :: rest => some ([item], rest)
        | ',' :: rest =>
          (readItems bound levels rest).map fun (items, rest) => (item :: items, rest)
        | _ => none

/-- The assignments of an inline table up to its closing brace, all on one line. -/
def readInline : Nat → Nat → List Char → Option (List Assignment × List Char)
  | 0, _, _ => none
  | bound + 1, levels, text =>
    match key? text with
    | some (path, '=' :: rest) =>
      match readValue bound levels (skipSpace rest) with
      | none => none
      | some (value, rest) =>
        match skipSpace rest with
        | '\x7d' :: rest => some ([⟨path, value⟩], rest)
        | ',' :: rest =>
          (readInline bound levels rest).map fun (body, rest) => (⟨path, value⟩ :: body, rest)
        | _ => none
    | _ => none

end

inductive Statement where
  | assignment (assignment : Assignment)
  | header (isElement : Bool) (path : List String)

def readAssignment (text : List Char) : Option (Assignment × List Char) :=
  match key? text with
  | some (path, '=' :: rest) =>
    (readValue (rest.length + 1) (depthLimit - 1) (skipSpace rest)).map fun (value, rest) =>
      (⟨path, value⟩, rest)
  | _ => none

def readHeader : List Char → Option (Statement × List Char)
  | '[' :: '[' :: rest =>
    match key? rest with
    | some (path, ']' :: ']' :: rest) => some (.header true path, rest)
    | _ => none
  | '[' :: rest =>
    match key? rest with
    | some (path, ']' :: rest) => some (.header false path, rest)
    | _ => none
  | _ => none

/-- The statements of a document behind those already read back to front. -/
def readStatements : Nat → List Statement → List Char → Option (List Statement)
  | 0, _, _ => none
  | bound + 1, read, text =>
    match skipSpace text with
    | [] => some read.reverse
    | '#' :: rest =>
      match endOfLine? ('#' :: rest) with
      | none => none
      | some rest => readStatements bound read rest
    | text =>
      match lineEnd? text with
      | some rest => readStatements bound read rest
      | none =>
        let statement := match text with
          | '[' :: _ => readHeader text
          | _ => (readAssignment text).map fun (assignment, rest) => (.assignment assignment, rest)
        match statement with
        | none => none
        | some (statement, rest) =>
          match endOfLine? rest with
          | none => none
          | some rest => readStatements bound (statement :: read) rest

/-- The assignments before the first header, and the sections. -/
def divide : List Statement → List Assignment × List Section
  | [] => ([], [])
  | .assignment assignment :: rest =>
    let (body, sections) := divide rest
    (assignment :: body, sections)
  | .header isElement path :: rest =>
    let (body, sections) := divide rest
    ([], { isElement, path, body } :: sections)

/-- The table a document holds. A byte order mark in front of it is skipped. -/
def parse? (text : String) : Option Toml :=
  let chars := match text.toList with
    | '\ufeff' :: rest => rest
    | chars => chars
  match readStatements (chars.length + 1) [] chars with
  | none => none
  | some statements =>
    let (body, sections) := divide statements
    document? body sections

end Bindery.Toml
