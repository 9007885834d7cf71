import Bindery.Ast.Decode
import Bindery.Ast.WellFormed
import Bindery.Json.Reader

/-! Loading an AST dump: reading its text, decoding it and checking the unit. -/

set_option autoImplicit false

namespace Bindery.Ast

inductive LoadError where
  /-- The file at a path could not be read or written. -/
  | inaccessible (path : String)
  /-- The text is not JSON for a translation unit. -/
  | undecodable
  | malformed (fault : Fault)
  deriving DecidableEq, Repr

def LoadError.report : LoadError → Report
  | .inaccessible path =>
    { message := s!"I/O error on {path}"
      code := "hydra_source::io_error" }
  | .undecodable =>
    { message := "Malformed AST dump: the text is not JSON for a translation unit"
      code := "hydra_source::decode_error"
      help := some "The dump must be produced by a front-end adapter for this version of hydra" }
  | .malformed fault => fault.report

namespace TranslationUnit

def checked (u : TranslationUnit) : Except LoadError TranslationUnit :=
  match u.firstFault? with
  | some fault => .error (.malformed fault)
  | none => .ok u

def ofDocument (document : Json) : Except LoadError TranslationUnit :=
  match ofJson? document with
  | none => .error .undecodable
  | some u => u.checked

def ofText (text : String) : Except LoadError TranslationUnit :=
  match Json.parse? text with
  | none => .error .undecodable
  | some document => ofDocument document

end TranslationUnit

end Bindery.Ast
