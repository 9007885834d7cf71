import Bindery.Ast.Unit
import Bindery.Report

/-! Conditions met while a model is built or asked, none of which stops the work. -/

set_option autoImplicit false

namespace Bindery

open Ast (Location)

inductive Diagnostic where
  /-- The semantic parent of a declaration is not in the model, so that it belongs to nothing. -/
  | unresolvedOwner (name owner : String) (location : Location)
  /-- The owner does not take the child, or not from where it is written. -/
  | rejectedChild (name childKind owner : String) (location : Location)
  | unresolvedType (name spelling : String) (location : Location)
  /-- A base specifier has no record behind it. -/
  | unresolvedBase (name base : String) (location : Location)
  | selfBase (name : String) (location : Location)
  /-- A message of the front end, passed on. -/
  | parseMessage (severity : Ast.Severity) (content : String) (location : Location)
  deriving DecidableEq, Repr

namespace Diagnostic

def location : Diagnostic → Location
  | .unresolvedOwner _ _ location | .rejectedChild _ _ _ location | .unresolvedType _ _ location
  | .unresolvedBase _ _ location | .selfBase _ location | .parseMessage _ _ location => location

def report : Diagnostic → Report
  | .unresolvedOwner name owner location =>
    { message :=
        s!"{location.text}: owner `{owner}` of `{name}` is not in the model, declaration dropped"
      code := "hydra_dom::unresolved_owner"
      severity := some .warning
      help := some "the owner is usually declared in a header that was not parsed" }
  | .rejectedChild name childKind owner location =>
    { message := s!"{location.text}: `{owner}` does not accept {childKind} `{name}`"
      code := "hydra_dom::rejected_child"
      severity := some .advice }
  | .unresolvedType name spelling location =>
    { message := s!"{location.text}: cannot resolve type `{spelling}` of `{name}`"
      code := "hydra_dom::unresolved_type"
      severity := some .warning }
  | .unresolvedBase name base location =>
    { message := s!"{location.text}: base `{base}` of `{name}` cannot be resolved"
      code := "hydra_dom::unresolved_base"
      severity := some .warning
      help := some "the record is kept without this base unless the policy drops such records" }
  | .selfBase name location =>
    { message := s!"{location.text}: `{name}` resolves to its own base"
      code := "hydra_dom::self_base"
      severity := some .warning }
  | .parseMessage severity content location =>
    { message := s!"{location.text}: {severity.label}: {content}"
      code := "hydra_dom::parse_diagnostic"
      severity := some .advice }

end Diagnostic

end Bindery
